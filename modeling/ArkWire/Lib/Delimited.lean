import Mathlib.Tactic

/-! # Sequences cut at a delimiter

`split` cuts a sequence at every delimiter into the pieces that one terminates and the unterminated
rest. `frames` is the grammar of frames of bounded length over it: a piece within the bound is
itself, a longer one is an overflow, and so is an unterminated rest that is already too long.

The append lemmas say how a sequence that arrives in parts is cut: only the unterminated rest of the
first part matters. -/

namespace ArkWire.Lib.Delimited

variable {α : Type*} [DecidableEq α] (d : α)

/-- The terminated pieces, and the unterminated rest. -/
def split : List α → List (List α) × List α
  | [] => ([], [])
  | a :: as =>
    if a = d then ([] :: (split as).1, (split as).2)
    else
      match (split as).1 with
      | [] => ([], a :: (split as).2)
      | p :: ps => ((a :: p) :: ps, (split as).2)

def pieces (xs : List α) : List (List α) := (split d xs).1

def rest (xs : List α) : List α := (split d xs).2

/-! ### Cutting a concatenation -/

@[simp] theorem pieces_nil : pieces d ([] : List α) = [] := rfl

@[simp] theorem rest_nil : rest d ([] : List α) = [] := rfl

@[simp] theorem pieces_cons_delim (xs : List α) : pieces d (d :: xs) = [] :: pieces d xs := by
  simp [pieces, split]

@[simp] theorem rest_cons_delim (xs : List α) : rest d (d :: xs) = rest d xs := by
  simp [rest, split]

variable {d}

theorem split_of_notMem : ∀ {xs : List α}, d ∉ xs → split d xs = ([], xs)
  | [], _ => rfl
  | a :: as, h => by
    rw [List.mem_cons, not_or] at h
    simp only [split, if_neg (Ne.symm h.1), split_of_notMem h.2]

theorem pieces_of_notMem {xs : List α} (h : d ∉ xs) : pieces d xs = [] := by
  rw [pieces, split_of_notMem h]

theorem rest_of_notMem {xs : List α} (h : d ∉ xs) : rest d xs = xs := by
  rw [rest, split_of_notMem h]

/-- A terminated piece in front. -/
theorem split_append_delim {p : List α} (h : d ∉ p) (xs : List α) :
    split d (p ++ d :: xs) = (p :: pieces d xs, rest d xs) := by
  induction p with
  | nil => simp [split, pieces, rest]
  | cons a p ih =>
    rw [List.mem_cons, not_or] at h
    rw [List.cons_append]
    simp only [split, if_neg (Ne.symm h.1), ih h.2]

theorem pieces_append_delim {p : List α} (h : d ∉ p) (xs : List α) :
    pieces d (p ++ d :: xs) = p :: pieces d xs := by
  rw [pieces, split_append_delim h]

theorem rest_append_delim {p : List α} (h : d ∉ p) (xs : List α) :
    rest d (p ++ d :: xs) = rest d xs := by
  rw [rest, split_append_delim h]

/-- Either there is no delimiter, or there is a first one. -/
theorem notMem_or_first (d : α) (xs : List α) :
    d ∉ xs ∨ ∃ p ys, xs = p ++ d :: ys ∧ d ∉ p := by
  by_cases h : d ∈ xs
  · obtain ⟨p, ys, rfl, hp⟩ := List.eq_append_cons_of_mem h
    exact .inr ⟨p, ys, rfl, hp⟩
  · exact .inl h

/-- Induction over the pieces: the rest, and one piece more in front. -/
theorem pieces_induction {P : List α → Prop} (hrest : ∀ xs, d ∉ xs → P xs)
    (hpiece : ∀ p xs, d ∉ p → P xs → P (p ++ d :: xs)) (xs : List α) : P xs := by
  induction hn : xs.length using Nat.strongRecOn generalizing xs with
  | _ n ih =>
    rcases notMem_or_first d xs with h | ⟨p, ys, rfl, hp⟩
    · exact hrest xs h
    · refine hpiece p ys hp (ih ys.length ?_ ys rfl)
      rw [← hn, List.length_append, List.length_cons]
      omega

/-- **Only the unterminated rest matters** for what follows. -/
theorem split_append (xs ys : List α) :
    split d (xs ++ ys) =
      (pieces d xs ++ pieces d (rest d xs ++ ys), rest d (rest d xs ++ ys)) := by
  induction xs using pieces_induction (d := d) with
  | hrest xs h => rw [pieces_of_notMem h, rest_of_notMem h]; rfl
  | hpiece p xs hp ih =>
    have hs := split_append_delim hp xs
    have hs' := split_append_delim hp (xs ++ ys)
    rw [List.append_assoc, List.cons_append, hs', pieces, rest, ih]
    simp only [pieces, rest, hs, List.cons_append]

theorem pieces_append (xs ys : List α) :
    pieces d (xs ++ ys) = pieces d xs ++ pieces d (rest d xs ++ ys) := by
  rw [pieces, split_append]

theorem rest_append (xs ys : List α) : rest d (xs ++ ys) = rest d (rest d xs ++ ys) := by
  rw [rest, split_append]

theorem rest_notMem (xs : List α) : d ∉ rest d xs := by
  induction xs using pieces_induction (d := d) with
  | hrest xs h => rwa [rest_of_notMem h]
  | hpiece p xs hp ih => rwa [rest, split_append_delim hp]

/-! ### Frames of bounded length -/

/-- A frame within the bound, or the report of a longer one. -/
inductive Frame (α : Type*) where
  | piece (p : List α)
  | overflow
  deriving DecidableEq

variable (d) (max : ℕ)

/-- The frame of a terminated piece. -/
def classify (p : List α) : Frame α := if p.length ≤ max then .piece p else .overflow

/-- An unterminated rest is reported once it is too long. -/
def overflowing (p : List α) : List (Frame α) := if p.length ≤ max then [] else [.overflow]

/-- **The frames of a sequence.** -/
def frames (xs : List α) : List (Frame α) :=
  (pieces d xs).map (classify max) ++ overflowing max (rest d xs)

/-- What follows the first delimiter. -/
def afterDelim : List α → List α
  | [] => []
  | a :: as => if a = d then as else afterDelim as

variable {d max}

@[simp] theorem frames_nil : frames d max ([] : List α) = [] := by
  simp [frames, overflowing]

theorem frames_of_notMem {p : List α} (h : d ∉ p) : frames d max p = overflowing max p := by
  rw [frames, pieces_of_notMem h, rest_of_notMem h]; rfl

theorem frames_append_delim {p : List α} (h : d ∉ p) (xs : List α) :
    frames d max (p ++ d :: xs) = classify max p :: frames d max xs := by
  rw [frames, pieces, rest, split_append_delim h]
  rfl

theorem afterDelim_append_delim {p : List α} (h : d ∉ p) (xs : List α) :
    afterDelim d (p ++ d :: xs) = xs := by
  induction p with
  | nil => simp [afterDelim]
  | cons a p ih =>
    rw [List.mem_cons, not_or] at h
    rw [List.cons_append, afterDelim, if_neg (Ne.symm h.1), ih h.2]

theorem afterDelim_of_notMem {p : List α} (h : d ∉ p) : afterDelim d p = [] := by
  induction p with
  | nil => rfl
  | cons a p ih =>
    rw [List.mem_cons, not_or] at h
    rw [afterDelim, if_neg (Ne.symm h.1), ih h.2]

/-- Frames after a complete one. -/
theorem frames_append {c : List α} (h : rest d c = []) (xs : List α) :
    frames d max (c ++ xs) = frames d max c ++ frames d max xs := by
  simp [frames, pieces_append, rest_append, h, overflowing]

/-- Frames after a part of one that was reported as an overflow: the remainder gives nothing. -/
theorem frames_append_overflow {c : List α} (h : max < (rest d c).length) (xs : List α) :
    frames d max (c ++ xs) = frames d max c ++ frames d max (afterDelim d xs) := by
  have hc : d ∉ rest d c := rest_notMem c
  have ho : overflowing max (rest d c) = [.overflow] := if_neg (by omega)
  rcases notMem_or_first d xs with hx | ⟨p, ys, rfl, hp⟩
  · have hcx : d ∉ rest d c ++ xs := by simp [hc, hx]
    rw [afterDelim_of_notMem hx, frames_nil, List.append_nil, frames, frames, pieces_append,
      rest_append, pieces_of_notMem hcx, rest_of_notMem hcx, List.append_nil, ho,
      overflowing, if_neg (by rw [List.length_append]; omega)]
  · have hcp : d ∉ rest d c ++ p := by simp [hc, hp]
    have hlong : classify max (rest d c ++ p) = .overflow :=
      if_neg (by rw [List.length_append]; omega)
    rw [afterDelim_append_delim hp, frames, pieces_append, rest_append, ← List.append_assoc,
      pieces_append_delim hcp, rest_append_delim hcp, List.map_append, List.map_cons, hlong,
      frames, ho, frames]
    simp

/-- A delimiter at the end leaves no rest. -/
theorem rest_concat (xs : List α) : rest d (xs ++ [d]) = [] := by
  rw [rest_append, rest_append_delim (rest_notMem xs), rest_nil]

/-- There are no more frames than elements. -/
theorem length_frames_le (xs : List α) : (frames d max xs).length ≤ xs.length := by
  induction xs using pieces_induction (d := d) with
  | hrest xs h =>
    rw [frames_of_notMem h, overflowing]
    split_ifs with hle
    · exact Nat.zero_le _
    · rw [List.length_singleton]
      omega
  | hpiece p xs hp ih =>
    rw [frames_append_delim hp, List.length_cons, List.length_append, List.length_cons]
    omega

/-- **What follows only adds frames.** -/
theorem frames_initial (xs ys : List α) : frames d max xs <+: frames d max (xs ++ ys) := by
  by_cases h : (rest d xs).length ≤ max
  · rw [frames, overflowing, if_pos h, List.append_nil, frames, pieces_append, List.map_append,
      List.append_assoc]
    exact List.prefix_append _ _
  · rw [frames_append_overflow (not_le.mp h)]
    exact List.prefix_append _ _

end ArkWire.Lib.Delimited
