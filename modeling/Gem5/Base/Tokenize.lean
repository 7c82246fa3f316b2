/-
This file models `tokenize` (`base/str.cc`), which cuts a string at a separator with two positions
that the leading separators, the separators to ignore and the pieces move in different ways. It
proves that it ends and which pieces it yields.
-/

import Mathlib

namespace Gem5.Base.Str

open List

/-- The first position from `pos` on with a character of the kind; none stands for `npos`. -/
def find (kind : Char → Bool) (s : List Char) (pos : Nat) : Option Nat :=
  ((s.drop pos).findIdx? kind).map (pos + ·)

def findFirstOf (s : List Char) (token : Char) : Nat → Option Nat := find (· == token) s

def findFirstNotOf (s : List Char) (token : Char) : Nat → Option Nat := find (· != token) s

/-- `substr`, which throws if the position is beyond the end. -/
def substr (s : List Char) (pos len : Nat) : Option (List Char) :=
  if pos ≤ s.length then some ((s.drop pos).take len) else none

/-- The loop `while (last == first)`; nothing if it takes more than `fuel` rounds. -/
def skipLeading (s : List Char) (token : Char) : Nat → Nat → Option Nat → Option (Nat × Option Nat)
  | fuel, first, last =>
    if last = some first then
      match fuel with
      | 0 => none
      | fuel + 1 => skipLeading s token fuel (first + 1) (findFirstOf s token (first + 1))
    else some (first, last)

/-- The loop `while (last != npos)` and the piece after it. -/
def cut (s : List Char) (token : Char) (ignore : Bool) :
    Nat → Nat → Option Nat → Option (List (List Char))
  | _, first, none => do return [← substr s first s.length]
  | 0, _, some _ => none
  | fuel + 1, first, some last => do
    let piece ← substr s first (last - first)
    let next := if ignore then findFirstNotOf s token (last + 1) else some (last + 1)
    match next with
    | none => return [piece]
    | some first => return piece :: (← cut s token ignore fuel first (findFirstOf s token first))

/-- The loops get as many rounds as there are characters and one more. -/
def tokenize (s : List Char) (token : Char) (ignore : Bool) : Option (List (List Char)) :=
  let last := findFirstOf s token 0
  if s = [] then some []
  else if ignore ∧ last = some 0 then do
    let (first, last) ← skipLeading s token (s.length + 1) 0 last
    if last = none then
      if first ≠ s.length then return [← substr s first s.length] else return []
    else cut s token ignore (s.length + 1) first last
  else cut s token ignore (s.length + 1) 0 last

/-- The pieces between the separators, without the empty ones if those are ignored. -/
def pieces (token : Char) (ignore : Bool) (s : List Char) : List (List Char) :=
  (s.splitOn token).filter fun piece => !ignore || piece ≠ []

/-! ### Searches and pieces -/

theorem find_cases (kind : Char → Bool) (s : List Char) (pos : Nat) :
    find kind s pos = none ∧ (∀ c ∈ s.drop pos, kind c = false) ∨
      ∃ before c, find kind s pos = some (pos + before.length) ∧ (∀ c ∈ before, kind c = false) ∧
        kind c = true ∧ pos + before.length < s.length ∧
        s.drop pos = before ++ c :: s.drop (pos + before.length + 1) := by
  rw [find]
  cases found : (s.drop pos).find? kind with
  | none =>
    have absent : ∀ c ∈ s.drop pos, kind c = false := by simpa using found
    exact .inl ⟨by rw [findIdx?_eq_none_iff.mpr absent]; rfl, absent⟩
  | some c =>
    obtain ⟨holds, before, after, split, absent⟩ := find?_eq_some_iff_append.mp found
    simp only [Bool.not_eq_eq_eq_not, Bool.not_true] at absent
    have count := congrArg length split
    rw [length_drop, length_append, length_cons] at count
    refine .inr ⟨before, c, ?_, absent, holds, by omega, ?_⟩
    · rw [split, findIdx?_append, findIdx?_eq_none_iff.mpr absent, findIdx?_cons, if_pos holds]
      simp
    · rw [Nat.add_assoc, ← drop_drop, split]
      simp

variable {s piece rest : List Char} {token : Char} {ignore : Bool}

section

variable (absent : ∀ c ∈ piece, (c == token) = false) (kept : ignore = true → piece ≠ [])
include absent kept

theorem pieces_last : pieces token ignore piece = [piece] := by
  rw [pieces, splitOn, splitOnP_eq_singleton absent]
  cases ignore <;> simp_all

theorem pieces_append :
    pieces token ignore (piece ++ token :: rest) = piece :: pieces token ignore rest := by
  rw [pieces, splitOn, splitOnP_append_cons_of_forall_mem absent token (beq_self_eq_true token)]
  cases ignore <;> simp_all [pieces, splitOn]

end

theorem pieces_skip (all : ∀ c ∈ piece, (c != token) = false) :
    pieces token true (piece ++ rest) = pieces token true rest := by
  induction piece with
  | nil => rfl
  | cons c _ hypothesis =>
    obtain ⟨same, others⟩ := forall_mem_cons.mp all
    rw [← hypothesis others, pieces, splitOn, cons_append, splitOnP_cons_eq_if_modifyHead]
    simp_all [pieces, splitOn]

/-! ### The loops -/

theorem cut_eq {fuel first : Nat} (inside : first ≤ s.length) (enough : s.length - first < fuel)
    (kept : ignore = true → s.drop first ≠ [] ∧ findFirstOf s token first ≠ some first) :
    cut s token ignore fuel first (findFirstOf s token first) =
      some (pieces token ignore (s.drop first)) := by
  induction fuel generalizing first with
  | zero => omega
  | succ fuel hypothesis =>
    obtain ⟨none, absent⟩ | ⟨before, c, found, absent, holds, bound, split⟩ :=
      find_cases (· == token) s first
    · rw [pieces_last absent fun ignored => (kept ignored).1, findFirstOf, none, cut, substr,
        if_pos inside, take_of_length_le (by rw [length_drop]; omega)]
      rfl
    · obtain rfl : c = token := eq_of_beq holds
      have full : ignore = true → before ≠ [] := by
        rintro ignored rfl
        exact (kept ignored).2 found
      rw [findFirstOf, found, cut, substr, if_pos inside, Nat.add_sub_cancel_left, split, take_left,
        pieces_append absent full]
      cases ignore with
      | false => simp [@hypothesis (first + before.length + 1) bound (by omega) nofun]
      | true =>
        obtain ⟨none, all⟩ | ⟨skipped, d, start, all, differs, further, next⟩ :=
          find_cases (· != c) s (first + before.length + 1)
        · have nothing := @pieces_skip _ [] c all
          rw [append_nil] at nothing
          simp [findFirstNotOf, none, nothing]
          rfl
        · have tail := congrArg (drop skipped.length) next
          rw [drop_drop, drop_left] at tail
          rw [next, pieces_skip all, ← tail]
          have others := @hypothesis _ further.le (by omega) fun _ => ⟨by simp [tail], ?_⟩
          · simp [findFirstNotOf, start, others]
          · rw [findFirstOf, find, tail, findIdx?_cons]
            simp_all

theorem skipLeading_eq {fuel first : Nat} (inside : first ≤ s.length)
    (enough : s.length - first < fuel) :
    ∃ stop, skipLeading s token fuel first (findFirstOf s token first) =
        some (stop, findFirstOf s token stop) ∧ stop ≤ s.length ∧
      findFirstOf s token stop ≠ some stop ∧
      pieces token true (s.drop stop) = pieces token true (s.drop first) := by
  induction fuel generalizing first with
  | zero => omega
  | succ fuel hypothesis =>
    rw [skipLeading]
    split
    next leading =>
      obtain ⟨none, _⟩ | ⟨before, c, found, _, holds, bound, split⟩ :=
        find_cases (· == token) s first
      · cases leading.symm.trans none
      · obtain rfl : before = [] := by simpa using leading.symm.trans found
        obtain ⟨stop, skips, inside, stops, same⟩ := @hypothesis (first + 1) bound (by omega)
        refine ⟨stop, skips, inside, stops, ?_⟩
        rw [same, split]
        exact (@pieces_skip [c] _ token (by simpa using holds)).symm
    next other => exact ⟨first, rfl, inside, other, rfl⟩

theorem tokenize_eq (nonempty : ignore = false → s ≠ []) :
    tokenize s token ignore = some (pieces token ignore s) := by
  have start := Nat.zero_le s.length
  rw [tokenize]
  dsimp only
  by_cases empty : s = []
  · cases ignore with
    | false => exact absurd empty (nonempty rfl)
    | true => rw [if_pos empty, empty]; rfl
  · rw [if_neg empty]
    split
    next leading =>
      obtain ⟨rfl, -⟩ := leading
      obtain ⟨stop, skips, bound, stops, same⟩ :=
        @skipLeading_eq s token (s.length + 1) 0 start (by omega)
      rw [drop_zero] at same
      simp only [skips, ← same, Option.bind_eq_bind, Option.bind_some]
      by_cases atEnd : s.drop stop = []
      · have same : stop = s.length := bound.antisymm (drop_eq_nil_iff.mp atEnd)
        have last : findFirstOf s token stop = none := by rw [findFirstOf, find, atEnd]; rfl
        rw [if_pos last, if_neg (not_not.mpr same), atEnd]
        rfl
      · have rest := @cut_eq s token true (s.length + 1) stop bound (by omega)
          fun _ => ⟨atEnd, stops⟩
        by_cases last : findFirstOf s token stop = none
        · rw [last, cut] at rest
          rw [if_pos last, if_pos fun same => atEnd (drop_eq_nil_iff.mpr same.ge)]
          exact rest
        · rw [if_neg last]
          exact rest
    next other =>
      exact cut_eq start (by omega) fun ignored => ⟨empty, fun leading => other ⟨ignored, leading⟩⟩

/-- With `ignore` the pieces are the maximal runs of other characters; without it they are what
stands between the separators. -/
theorem tokenize_pieces (s : List Char) (token : Char) :
    tokenize s token true = some ((s.splitOn token).filter (· ≠ [])) ∧
      (s ≠ [] → tokenize s token false = some (s.splitOn token) ∧
        [token].intercalate (s.splitOn token) = s) := by
  refine ⟨?_, fun nonempty => ⟨?_, intercalate_splitOn token⟩⟩
  · rw [@tokenize_eq s token true nofun, pieces]
    simp
  · rw [tokenize_eq fun _ => nonempty, pieces]
    simp

theorem tokenize_pieces_commas : tokenize ",a,,b,".toList ',' true = some [['a'], ['b']] ∧
    tokenize ",a,,b,".toList ',' false = some [[], ['a'], [], ['b'], []] :=
  ⟨(tokenize_pieces ",a,,b,".toList ',').1, ((tokenize_pieces ",a,,b,".toList ',').2 (by decide)).1⟩

end Gem5.Base.Str
