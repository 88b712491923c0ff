/-! Searching a text for a literal, and replacing what is found from left to right. -/

namespace EmailTemplate.Text

/-- What follows `head` at the start of the text, if the text starts with it. -/
def after? : List Char → List Char → Option (List Char)
  | [], s => some s
  | _ :: _, [] => none
  | h :: head, c :: s => if h = c then after? head s else none

def begins (head s : List Char) : Bool := (after? head s).isSome

/-- The text before and after the first occurrence of `find`. -/
def splitFirst? (find : List Char) : List Char → Option (List Char × List Char)
  | [] => if find.isEmpty then some ([], []) else none
  | c :: s =>
    match after? find (c :: s) with
    | some rest => some ([], rest)
    | none => (splitFirst? find s).map fun (before, rest) => (c :: before, rest)

def occurs (find s : List Char) : Bool := (splitFirst? find s).isSome

/-- Passes over `skip` characters; then puts, wherever `step` recognises a beginning of the rest,
its replacement for as many characters as `step` tells. -/
def replaceMatchesFrom (step : List Char → Option (List Char × Nat)) : Nat → List Char → List Char
  | _, [] => []
  | skip + 1, _ :: s => replaceMatchesFrom step skip s
  | 0, c :: s =>
    match step (c :: s) with
    | some (put, length) => put ++ replaceMatchesFrom step (length - 1) s
    | none => c :: replaceMatchesFrom step 0 s

/-- Replaces leftmost matches one after the other, without looking again at what was put. -/
def replaceMatches (step : List Char → Option (List Char × Nat)) (s : List Char) : List Char :=
  replaceMatchesFrom step 0 s

/-- What `step` finds at leftmost matches that do not overlap, in order, past `skip` characters. -/
def collectFrom {α : Type} (step : List Char → Option (α × Nat)) : Nat → List Char → List α
  | _, [] => []
  | skip + 1, _ :: s => collectFrom step skip s
  | 0, c :: s =>
    match step (c :: s) with
    | some (found, length) => found :: collectFrom step (length - 1) s
    | none => collectFrom step 0 s

def collect {α : Type} (step : List Char → Option (α × Nat)) (s : List Char) : List α :=
  collectFrom step 0 s

def literal (find put : List Char) (s : List Char) : Option (List Char × Nat) :=
  (after? find s).map fun _ => (put, find.length)

/-- Replaces every occurrence of `find`, which is not empty. -/
def replaceAll (find put s : List Char) : List Char := replaceMatches (literal find put) s

/-- How many occurrences `replaceAll` replaces. -/
def countAll (find s : List Char) : Nat :=
  (collect (fun t => (after? find t).map fun _ => ((), find.length)) s).length

theorem after?_length {head s rest : List Char} (h : after? head s = some rest) :
    s.length = head.length + rest.length := by
  induction head generalizing s with
  | nil => simp_all [after?]
  | cons x xs ih =>
    cases s with
    | nil => simp [after?] at h
    | cons c cs =>
      by_cases hx : x = c
      · simp only [after?, hx, if_true] at h
        have := ih h
        simp only [List.length_cons]
        omega
      · simp [after?, hx] at h

theorem splitFirst?_length {find s before rest : List Char}
    (h : splitFirst? find s = some (before, rest)) :
    s.length = before.length + find.length + rest.length := by
  induction s generalizing before rest with
  | nil =>
    cases find with
    | nil => simp_all [splitFirst?]
    | cons x xs => simp [splitFirst?] at h
  | cons c cs ih =>
    simp only [splitFirst?] at h
    split at h
    · next r hr =>
      have := after?_length hr
      simp_all
    · next hr =>
      cases hs : splitFirst? find cs with
      | none => simp [hs] at h
      | some p =>
        simp only [hs, Option.map_some, Option.some.injEq, Prod.mk.injEq] at h
        have := @ih p.1 p.2 (by rw [hs])
        obtain ⟨rfl, rfl⟩ := h
        simp only [List.length_cons]
        omega

end EmailTemplate.Text
