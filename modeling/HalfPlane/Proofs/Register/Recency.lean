/-
What a memory of limited size holds: the texts touched last.

A text is touched when a form is stored for it, or when it is looked up and found. The texts
touched, each at its last touch, are `touches.dedup`, and the memory holds as many of them as it
has room for, from the end. One touch puts a text at the end of both (`dedup_concat`), and what it
pushes out of the memory it pushes out of the end of that list, because a text is in it once
(`rtake_filter_concat`). So the memory keeps to the texts touched last through one access
(`Recalls.access`), and through any run of them (`Recalls.accessAll`).
-/
import Mathlib.Data.List.Dedup
import Mathlib.Data.List.DropRight
import HalfPlane.Proofs.Register.Requests

namespace HalfPlane

/-! ## The end of a list without repetitions -/

section Ends
variable {β : Type}

theorem rtake_of_length_le {l : List β} {n : Nat} (h : l.length ≤ n) : l.rtake n = l := by
  rw [List.rtake, Nat.sub_eq_zero_of_le h, List.drop_zero]

theorem length_rtake_le (l : List β) (n : Nat) : (l.rtake n).length ≤ n := by
  rw [List.rtake, List.length_drop]
  omega

theorem rtake_append_of_le (l : List β) {r : List β} {n : Nat} (h : n ≤ r.length) :
    (l ++ r).rtake n = r.rtake n := by
  rw [List.rtake, List.rtake, List.length_append, Nat.add_sub_assoc h,
    List.drop_length_add_append]

variable [DecidableEq β]

/-- The last of a list moves to the end of its distinct elements. -/
theorem dedup_concat (l : List β) (a : β) :
    (l ++ [a]).dedup = l.dedup.filter (· != a) ++ [a] := by
  induction l with
  | nil => rfl
  | cons b l ih =>
    rw [List.cons_append]
    by_cases again : b ∈ l
    · rw [List.dedup_cons_of_mem (List.mem_append_left [a] again), List.dedup_cons_of_mem again, ih]
    · rw [List.dedup_cons_of_notMem again]
      by_cases same : b = a
      · subst same
        rw [List.dedup_cons_of_mem (List.mem_append_right l (List.mem_singleton_self b)), ih,
          List.filter_cons_of_neg (by simp)]
      · rw [List.dedup_cons_of_notMem (by simp [again, same]), ih,
          List.filter_cons_of_pos (by simpa using same), List.cons_append]

/-- An element moves to the end of a list alike whether its front has been cut off before or is
cut off afterwards. -/
theorem rtake_filter_concat {l : List β} (once : l.Nodup) (a : β) {n : Nat} (room : 1 ≤ n) :
    ((l.rtake n).filter (· != a) ++ [a]).rtake n = (l.filter (· != a) ++ [a]).rtake n := by
  obtain ⟨m, rfl⟩ : ∃ m, n = m + 1 := ⟨n - 1, by omega⟩
  rw [List.rtake_concat_succ, List.rtake_concat_succ]
  congr 1
  by_cases fits : l.length ≤ m + 1
  · rw [rtake_of_length_le fits]
  · -- Of the last `m + 1` elements at most one is taken away, so `m` of them are left.
    have kept : (l.rtake (m + 1)).Nodup := once.sublist (List.drop_sublist _ l)
    have enough : m ≤ ((l.rtake (m + 1)).filter (· != a)).length := by
      have one := List.le_length_erase (a := a) (l := l.rtake (m + 1))
      rw [kept.erase_eq_filter, List.rtake, List.length_drop] at one
      rw [List.rtake]
      omega
    have cut : l = l.take (l.length - (m + 1)) ++ l.rtake (m + 1) :=
      (List.take_append_drop _ l).symm
    conv_rhs => rw [cut, List.filter_append]
    rw [rtake_append_of_le _ enough]

end Ends

/-! ## One access of a memory -/

namespace Memo
variable {β : Type}

/-- The texts of which something is remembered, the longest untouched first. -/
def texts (m : Memo β) : List String := m.entries.map (·.1)

theorem texts_without (text : String) (entries : List (String × β)) :
    (without text entries).map (·.1) = (entries.map (·.1)).filter (· != text) := by
  rw [without, List.filter_map]
  rfl

theorem texts_store (m : Memo β) (text : String) (value : β) :
    (m.store text value).texts = (m.texts.filter (· != text) ++ [text]).rtake m.size := by
  have order : (without text m.entries ++ [(text, value)]).map (·.1) =
      m.texts.filter (· != text) ++ [text] := by
    rw [List.map_append, texts_without]
    rfl
  rw [texts, store, List.map_drop, order, List.rtake, ← order, List.length_map]

theorem lookup_isSome_iff (m : Memo β) (text : String) :
    (m.lookup text).1.isSome = true ↔ text ∈ m.texts := by
  have found : (m.lookup text).1 = (m.entries.find? (·.1 == text)).map (·.2) := by
    unfold lookup
    cases m.entries.find? (·.1 == text) <;> rfl
  rw [found, Option.isSome_map, List.find?_isSome]
  simp [texts]

/-- A text that is found moves to the end, and nothing is pushed out. -/
theorem texts_lookup (m : Memo β) {text : String} (h : text ∈ m.texts) :
    (m.lookup text).2.texts = m.texts.filter (· != text) ++ [text] := by
  rw [← lookup_isSome_iff] at h
  unfold lookup at h ⊢
  split
  · next missing =>
    rw [missing] at h
    cases h
  · next e found =>
    have same : e.1 = text := by simpa using List.find?_some found
    rw [texts, List.map_append, texts_without, List.map_singleton, same]
    rfl

theorem lookup_missing (m : Memo β) {text : String} (h : (m.lookup text).1 = none) :
    (m.lookup text).2 = m := by
  unfold lookup at h ⊢
  split
  · rfl
  · next e found =>
    rw [found] at h
    cases h

theorem size_lookup (m : Memo β) (text : String) : (m.lookup text).2.size = m.size := by
  unfold lookup
  split <;> rfl

end Memo

namespace Register
variable {α : Type}

/-! ## Runs of accesses -/

/-- What can be done to what a register remembers, and starting the register over. -/
inductive Access (α : Type) where
  | lookUp (text : String)
  | remember (text : String) (form : Option (LinearForm α))
  | restart

def access (r : Register α) : Access α → Register α
  | .lookUp text => (r.lookUp text).2
  | .remember text form => r.remember text form
  | .restart => r.restart

def accessAll (r : Register α) (accesses : List (Access α)) : Register α :=
  accesses.foldl access r

/-- The text that an access touches: one that is stored, or one that is looked up and found. -/
def touched? (r : Register α) : Access α → Option String
  | .lookUp text => if (r.lookUp text).1.isSome then some text else none
  | .remember text _ => some text
  | .restart => none

/-- The texts that a run of accesses touches, in order. -/
def touches : Register α → List (Access α) → List String
  | _, [] => []
  | r, a :: accesses => (r.touched? a).toList ++ (r.access a).touches accesses

/-- What an access stores for a text. -/
def Access.stored? (text : String) : Access α → Option (Option (LinearForm α))
  | .remember other form => if other = text then some form else none
  | _ => none

/-- What was last stored for a text. -/
def lastStored (text : String) (accesses : List (Access α)) : Option (Option (LinearForm α)) :=
  accesses.reverse.findSome? (Access.stored? text)

theorem accessAll_concat (r : Register α) (accesses : List (Access α)) (a : Access α) :
    r.accessAll (accesses ++ [a]) = (r.accessAll accesses).access a := by
  rw [accessAll, List.foldl_append]
  rfl

theorem touches_concat (accesses : List (Access α)) (a : Access α) :
    ∀ r : Register α, r.touches (accesses ++ [a]) =
      r.touches accesses ++ ((r.accessAll accesses).touched? a).toList := by
  induction accesses with
  | nil =>
    intro r
    exact List.append_nil _
  | cons b accesses ih =>
    intro r
    rw [List.cons_append, touches, touches, ih, List.append_assoc]
    rfl

theorem lastStored_concat (text : String) (accesses : List (Access α)) (a : Access α) :
    lastStored text (accesses ++ [a]) = (a.stored? text).or (lastStored text accesses) := by
  rw [lastStored, List.reverse_append, List.reverse_singleton, List.singleton_append,
    List.findSome?_cons]
  cases a.stored? text <;> rfl

/-! ## The texts touched last -/

/-- After these touches, and with this last stored for each text, a memory of this size holds the
texts touched last, and what was last stored for them. -/
structure Recalls (n : Nat) (touches : List String)
    (stored : String → Option (Option (LinearForm α))) (m : Memo (Option (LinearForm α))) :
    Prop where
  size : m.size = n
  texts : m.texts = touches.dedup.rtake n
  values : ∀ e ∈ m.entries, stored e.1 = some e.2

namespace Recalls
variable {n : Nat} {touches : List String} {stored : String → Option (Option (LinearForm α))}
  {m : Memo (Option (LinearForm α))}

/-- A touch moves a text to the end of those touched last. -/
theorem touch (h : Recalls n touches stored m) (room : 1 ≤ n) (text : String) :
    (m.texts.filter (· != text) ++ [text]).rtake n = (touches ++ [text]).dedup.rtake n := by
  rw [h.texts, dedup_concat, rtake_filter_concat (List.nodup_dedup touches) text room]

theorem store (h : Recalls n touches stored m) (room : 1 ≤ n) (text : String)
    (form : Option (LinearForm α)) {stored' : String → Option (Option (LinearForm α))}
    (here : stored' text = some form) (other : ∀ t, t ≠ text → stored' t = stored t) :
    Recalls n (touches ++ [text]) stored' (m.store text form) where
  size := h.size
  texts := by rw [Memo.texts_store, h.size, h.touch room]
  values e he := by
    have inAll := List.mem_of_mem_drop he
    simp only [Memo.without, List.mem_append, List.mem_filter, List.mem_singleton,
      bne_iff_ne] at inAll
    rcases inAll with ⟨he, ne⟩ | rfl
    · rw [other e.1 ne, h.values e he]
    · exact here

theorem lookup_found (h : Recalls n touches stored m) (room : 1 ≤ n) {text : String}
    (found : (m.lookup text).1.isSome = true) :
    Recalls n (touches ++ [text]) stored (m.lookup text).2 where
  size := by rw [Memo.size_lookup, h.size]
  texts := by
    have mem := (m.lookup_isSome_iff text).1 found
    rw [m.texts_lookup mem, ← h.touch room, rtake_of_length_le]
    -- The text was in the memory once, so there are no more texts than before.
    have once : m.texts.Nodup := by
      rw [h.texts]
      exact (List.nodup_dedup touches).sublist (List.drop_sublist _ _)
    have fits : m.texts.length ≤ n := by
      rw [h.texts]
      exact length_rtake_le _ _
    have some := List.length_pos_of_mem mem
    rw [← once.erase_eq_filter, List.length_append, List.length_erase_of_mem mem,
      List.length_singleton]
    omega
  values e he := h.values e (Memo.mem_of_mem_lookup he)

theorem lookup_missing (h : Recalls n touches stored m) {text : String}
    (missing : (m.lookup text).1 = none) : Recalls n touches stored (m.lookup text).2 := by
  rw [m.lookup_missing missing]
  exact h

/-- One access keeps to the texts touched last. -/
theorem access {r : Register α} (room : 1 ≤ n) {accesses : List (Access α)}
    (h : Recalls n touches (lastStored · accesses) r.memo) (a : Access α) :
    Recalls n (touches ++ (r.touched? a).toList) (lastStored · (accesses ++ [a]))
      (r.access a).memo := by
  simp only [lastStored_concat]
  cases a with
  | lookUp text =>
    cases found : (r.memo.lookup text).1 with
    | none =>
      have untouched : r.touched? (.lookUp text) = none := by
        simp only [touched?, lookUp, found, Option.isSome_none, Bool.false_eq_true, if_false]
      rw [untouched, Option.toList_none, List.append_nil]
      exact h.lookup_missing found
    | some form =>
      have here : r.touched? (.lookUp text) = some text := by
        simp only [touched?, lookUp, found, Option.isSome_some, if_true]
      rw [here]
      exact h.lookup_found room (by rw [found]; rfl)
  | remember text form =>
    refine h.store room text form ?_ fun t ne => ?_
    · rw [Access.stored?, if_pos rfl]
      rfl
    · rw [Access.stored?, if_neg (Ne.symm ne)]
      rfl
  | restart =>
    rw [touched?, Option.toList_none, List.append_nil]
    exact h

/-- Any run of accesses does. -/
theorem accessAll {r : Register α} (room : 1 ≤ n)
    (h : Recalls n [] (fun _ => none) r.memo) (accesses : List (Access α)) :
    Recalls n (r.touches accesses) (lastStored · accesses) (r.accessAll accesses).memo := by
  induction accesses using List.reverseRecOn with
  | nil => exact h
  | append_singleton accesses a ih =>
    rw [touches_concat, accessAll_concat]
    exact ih.access room a

theorem empty (n : Nat) :
    Recalls n [] (fun _ => none) (Memo.empty n : Memo (Option (LinearForm α))) where
  size := rfl
  texts := (List.rtake_nil n).symm
  values _ he := by cases he

/-- The entries are the texts touched last, each with what was last stored for it. -/
theorem entries (h : Recalls n touches stored m) :
    m.entries.map (fun e => (e.1, some e.2)) =
      (touches.dedup.rtake n).map fun text => (text, stored text) := by
  rw [← h.texts, Memo.texts, List.map_map]
  exact List.map_congr_left fun e he => congrArg (e.1, ·) (h.values e he).symm

end Recalls

/-- After any run of accesses to a new register, its memory holds the texts touched last, as many
as it has room for, in the order of their last touches and each with what was last stored for it.
So a text is found exactly if it is one of them. -/
theorem remembers_last_touched {palette : List String} (colours : palette ≠ [])
    (initial : String) {size : Int} (room : 1 ≤ size) :
    ∃ r : Register α, make palette initial size = .ok r ∧ ∀ accesses : List (Access α),
      let recent := (r.touches accesses).dedup.rtake size.toNat
      let after := r.accessAll accesses
      after.memo.entries.map (fun e => (e.1, some e.2)) =
          recent.map (fun text => (text, lastStored text accesses)) ∧
        (after.memo.entries.length : Int) ≤ size ∧
        ∀ text, ((after.lookUp text).1.isSome = true ↔ text ∈ recent) ∧
          ∀ form, (after.lookUp text).1 = some form → lastStored text accesses = some form := by
  obtain ⟨colors, found⟩ : ∃ colors, Colors.ofPalette? palette = some colors := by
    cases palette with
    | nil => exact absurd rfl colours
    | cons first others => exact ⟨_, rfl⟩
  refine ⟨_, make_eq found initial room, fun accesses => ?_⟩
  have recalls := Recalls.accessAll (r := ⟨initial, 0, colors, .empty size.toNat⟩) (by omega)
    (Recalls.empty size.toNat) accesses
  refine ⟨recalls.entries, ?_, fun text => ⟨?_, fun form hit => ?_⟩⟩
  · have fits := length_rtake_le ((touches ⟨initial, 0, colors, .empty size.toNat⟩ accesses).dedup)
      size.toNat
    rw [← recalls.texts, Memo.texts, List.length_map] at fits
    omega
  · rw [← recalls.texts]
    exact Memo.lookup_isSome_iff _ text
  · exact recalls.values _ (Memo.mem_of_lookup hit)

/-- Two texts stored as unreadable, of which the older one is looked up again, and a third. -/
def crowding : List (Access Float) :=
  [.remember "x" none, .restart, .remember "y" none, .lookUp "z", .lookUp "x",
    .remember "y > 0" none]

/-- With room for two texts, the one that was looked up stays and the other one is pushed out. -/
theorem remembers_last_touched_of_crowding : ∃ r : Register Float,
    make ["#4e31aa"] "d" 2 = .ok r ∧
    (r.accessAll crowding).memo.entries.map (fun e => (e.1, some e.2)) =
      [("x", some none), ("y > 0", some none)] ∧
    ((r.accessAll crowding).lookUp "x").1.isSome = true ∧
    ((r.accessAll crowding).lookUp "y").1.isSome = false := by
  have colours : ["#4e31aa"] ≠ [] := by decide
  have room : (1 : Int) ≤ 2 := by decide
  obtain ⟨r, made, run⟩ := remembers_last_touched (α := Float) colours "d" room
  obtain ⟨entries, -, found⟩ := run crowding
  have recent : (r.touches crowding).dedup.rtake (2 : Int).toNat = ["x", "y > 0"] := by
    cases made
    decide
  rw [recent] at entries found
  refine ⟨r, made, entries, (found "x").1.2 (by simp), ?_⟩
  exact Bool.eq_false_iff.2 fun hit => absurd ((found "y").1.1 hit) (by simp)

end Register
end HalfPlane
