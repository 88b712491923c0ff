import EmailTemplate.Proofs.Template.Token

/-! Rows of plain texts and tokens. A pass that looks at one token at a time puts in values and
leaves the rest of the row alone. -/

namespace EmailTemplate.Template

open Text

/-- Neither two opening braces nor one at the end: no token begins in such a text, whatever follows
it. -/
def Loose (s : List Char) : Prop := ¬ openBraces <:+: s ∧ s.getLast? ≠ some '{'

instance (s : List Char) : Decidable (Loose s) :=
  inferInstanceAs (Decidable (¬ openBraces <:+: s ∧ s.getLast? ≠ some '{'))

theorem BraceFree.loose {s : List Char} (h : BraceFree s) : Loose s := by
  refine ⟨fun hi => h.open_not_mem (hi.subset (by simp [openBraces])), fun hlast => ?_⟩
  exact h.open_not_mem (List.mem_of_getLast? hlast)

theorem Loose.passes {s : List Char} (h : Loose s) (t : List Char) : Passes openBraces s t := by
  rintro v w rfl hw hp
  obtain ⟨c, w, rfl⟩ := List.exists_cons_of_ne_nil hw
  obtain ⟨rfl, hsecond⟩ := List.cons_prefix_cons.mp hp
  cases w with
  | nil => exact h.2 (by simp)
  | cons d w =>
    obtain ⟨rfl, -⟩ := List.cons_prefix_cons.mp hsecond
    exact h.1 ⟨v, w, by simp [openBraces]⟩

/-- Plain text, or a token by its interior. -/
inductive Piece
  | text (s : List Char)
  | value (inner : List Char)
  deriving DecidableEq, Repr

namespace Piece

def print : Piece → List Char
  | text s => s
  | value inner => token inner

/-- What is written in a piece has no braces. -/
def Clean : Piece → Prop
  | text s => BraceFree s
  | value inner => BraceFree inner

instance : (p : Piece) → Decidable p.Clean
  | text s => inferInstanceAs (Decidable (BraceFree s))
  | value inner => inferInstanceAs (Decidable (BraceFree inner))

/-- Only a token has two opening braces in a row. -/
def Loose : Piece → Prop
  | text s => Template.Loose s
  | value inner => BraceFree inner

theorem Clean.loose {p : Piece} (h : p.Clean) : p.Loose := by
  cases p with
  | text s => exact BraceFree.loose h
  | value inner => exact h

/-- A token with a value becomes text. -/
def fill (value? : List Char → Option (List Char)) : Piece → Piece
  | text s => text s
  | value inner => match value? inner with
    | some put => text put
    | none => value inner

theorem fill_fill (f g : List Char → Option (List Char)) (p : Piece) :
    (p.fill f).fill g = p.fill fun inner => f inner <|> g inner := by
  cases p with
  | text s => rfl
  | value inner => cases h : f inner <;> simp [fill, h]

@[simp]
theorem fill_none (p : Piece) : p.fill (fun _ => none) = p := by
  cases p <;> rfl

theorem Clean.fill {p : Piece} (h : p.Clean) {value? : List Char → Option (List Char)}
    (hv : ∀ inner put, value? inner = some put → BraceFree put) : (p.fill value?).Clean := by
  cases p with
  | text s => exact h
  | value inner =>
    cases hp : value? inner with
    | none => simpa [Piece.fill, hp] using h
    | some put => simpa [Piece.fill, hp, Clean] using hv inner put hp

theorem Loose.fill {p : Piece} (h : p.Loose) {value? : List Char → Option (List Char)}
    (hv : ∀ inner put, p = value inner → value? inner = some put → Template.Loose put) :
    (p.fill value?).Loose := by
  cases p with
  | text s => exact h
  | value inner =>
    cases hp : value? inner with
    | none => simpa [Piece.fill, hp] using h
    | some put => simpa [Piece.fill, hp, Loose] using hv inner put rfl hp

/-- No token comes in where there was none. -/
theorem eq_of_fill_eq_value {p : Piece} {value? : List Char → Option (List Char)} {inner : List Char}
    (h : p.fill value? = value inner) : p = value inner := by
  cases p with
  | text s => exact h
  | value w =>
    cases hp : value? w with
    | none => simpa [Piece.fill, hp] using h
    | some put => simp [Piece.fill, hp] at h

end Piece

def printRow (row : List Piece) : List Char := row.flatMap Piece.print

@[simp]
theorem printRow_nil : printRow [] = [] := rfl

@[simp]
theorem printRow_cons (p : Piece) (row : List Piece) :
    printRow (p :: row) = p.print ++ printRow row := rfl

@[simp]
theorem printRow_append (row row' : List Piece) :
    printRow (row ++ row') = printRow row ++ printRow row' := List.flatMap_append

theorem printRow_flatMap {α : Type} (l : List α) (f : α → List Piece) :
    printRow (l.flatMap f) = l.flatMap fun a => printRow (f a) := List.flatMap_assoc

def CleanRow (row : List Piece) : Prop := ∀ p ∈ row, p.Clean

instance (row : List Piece) : Decidable (CleanRow row) := List.decidableBAll _ row

def LooseRow (row : List Piece) : Prop := ∀ p ∈ row, p.Loose

theorem CleanRow.loose {row : List Piece} (h : CleanRow row) : LooseRow row :=
  fun p hp => (h p hp).loose

theorem LooseRow.fill_loose {row : List Piece} (h : LooseRow row)
    {value? : List Char → Option (List Char)}
    (hv : ∀ inner put, .value inner ∈ row → value? inner = some put → Loose put) :
    LooseRow (row.map (Piece.fill value?)) := by
  intro p hp
  obtain ⟨q, hq, rfl⟩ := List.mem_map.mp hp
  refine (h q hq).fill fun inner put hvalue hput => ?_
  exact hv inner put (hvalue ▸ hq) hput

theorem LooseRow.fill {row : List Piece} (h : LooseRow row)
    {value? : List Char → Option (List Char)}
    (hv : ∀ inner put, value? inner = some put → BraceFree put) :
    LooseRow (row.map (Piece.fill value?)) :=
  h.fill_loose fun inner put _ hp => (hv inner put hp).loose

/-- What stands in the tokens of a row has no braces; its texts may have any. -/
def BraceFreeTokens (row : List Piece) : Prop := ∀ inner, .value inner ∈ row → BraceFree inner

theorem LooseRow.tokens {row : List Piece} (h : LooseRow row) : BraceFreeTokens row :=
  fun _ hi => h _ hi

theorem BraceFreeTokens.fill {row : List Piece} (h : BraceFreeTokens row)
    (value? : List Char → Option (List Char)) : BraceFreeTokens (row.map (Piece.fill value?)) := by
  intro inner hi
  obtain ⟨p, hp, hfill⟩ := List.mem_map.mp hi
  obtain rfl := Piece.eq_of_fill_eq_value hfill
  exact h inner hp

theorem CleanRow.fill {row : List Piece} (h : CleanRow row)
    {value? : List Char → Option (List Char)}
    (hv : ∀ inner put, value? inner = some put → BraceFree put) :
    CleanRow (row.map (Piece.fill value?)) := by
  intro p hp
  obtain ⟨q, hq, rfl⟩ := List.mem_map.mp hp
  exact (h q hq).fill hv

/-! ### What begins with two opening braces -/

section Read

variable {α : Type} {read : List Char → Option α}
  (hother : ∀ s, ¬ openBraces <+: s → read s = none)
include hother

theorem Passes.idle {u s : List Char} (h : Passes openBraces u s) : Idle read u s :=
  fun v w hvw hw => hother _ (h v w hvw hw)

theorem idle_token {inner s : List Char} (hinner : BraceFree inner)
    (h : read (token inner ++ s) = none) : Idle read (token inner) s := by
  have htoken : token inner = '{' :: '{' :: (inner ++ closeBraces) := by simp [token, openBraces]
  have htail : Passes openBraces ('{' :: (inner ++ closeBraces)) s := by
    have hpasses := passes_token_tail hinner [] s
    rwa [List.append_nil] at hpasses
  rw [htoken] at h ⊢
  exact Idle.cons h (Passes.idle hother htail)

end Read

theorem passes_of_openBraces {u s : List Char} (h : Passes openBraces u s) (word : List Char) :
    Passes (token word) u s := by
  have hmark : token word = openBraces ++ (word ++ closeBraces) := by simp [token]
  rw [hmark]
  exact h.extend _

section Pass

variable {step : List Char → Option (List Char × Nat)} {value? : List Char → Option (List Char)}

/-- A pass whose matches begin with two opening braces, and that takes up a token as a whole. -/
theorem replaceMatches_printRow (hother : ∀ s, ¬ openBraces <+: s → step s = none)
    (htoken : ∀ inner s, BraceFree inner → replaceMatches step (token inner ++ s) =
      (Piece.fill value? (.value inner)).print ++ replaceMatches step s)
    {row : List Piece} (h : LooseRow row) :
    replaceMatches step (printRow row) = printRow (row.map (Piece.fill value?)) := by
  induction row with
  | nil => rfl
  | cons p row ih =>
    have hp : p.Loose := h p (by simp)
    have hrow := ih fun q hq => h q (by simp [hq])
    rw [printRow_cons, List.map_cons, printRow_cons, ← hrow]
    cases p with
    | text s =>
      exact replaceMatches_idle (Passes.idle hother (Loose.passes hp _))
    | value inner => exact htoken inner _ hp

end Pass

theorem replaceAll_printRow {find : List Char} (hf : '}' ∉ find) (put : List Char)
    {row : List Piece} (h : LooseRow row) :
    replaceAll (token find) put (printRow row) =
      printRow (row.map (Piece.fill fun inner => if inner = find then some put else none)) := by
  refine replaceMatches_printRow ?_ ?_ h
  · intro s hs
    rw [literal_eq_none_iff]
    intro hp
    exact hs (List.IsPrefix.trans ⟨find ++ closeBraces, by simp [token]⟩ hp)
  · intro inner s hin
    by_cases he : inner = find
    · subst he
      simpa [Piece.fill, Piece.print, replaceAll] using
        replaceAll_literal (token_ne_nil inner) put s
    · have htoken : token find = openBraces ++ (find ++ closeBraces) := by simp [token]
      have hpasses : Passes (token find) (token inner) s := by
        rw [htoken]
        refine passes_token hin fun hp => he ?_
        rw [← htoken] at hp
        exact (eq_of_prefix_token hf hin.close_not_mem hp).symm
      simpa [Piece.fill, Piece.print, he, replaceAll] using replaceAll_passes hpasses

theorem tokenAt?_token_of_braceFree {inside : Char → Bool} {inner : List Char}
    (hstop : inside '}' = false) (hin : ∀ c, isBrace c = false → inside c = true)
    (h : BraceFree inner) (s : List Char) :
    tokenAt? inside (token inner ++ s) = some (inner, (token inner).length) :=
  tokenAt?_token hstop (fun c hc => hin c (h c hc)) s

/-- The value that a token has by its name. -/
def boundValue? (values : Bindings) (inner : List Char) : Option (List Char) :=
  (Json.lookup? (String.ofList (trim inner)) values).map String.toList

theorem substitute_token (values : Bindings) {inner : List Char} (hin : BraceFree inner)
    (s : List Char) : substitute values (token inner ++ s) =
      (Piece.fill (boundValue? values) (.value inner)).print ++ substitute values s := by
  have hat : valueToken? (token inner ++ s) = some (inner, (token inner).length) :=
    tokenAt?_token_of_braceFree (by decide) (fun c hc => by simp [hc]) hin s
  refine replaceMatches_match (token_ne_nil inner) ?_
  rw [hat, Option.map_some]
  cases hl : Json.lookup? (String.ofList (trim inner)) values with
  | none => simp [Piece.fill, boundValue?, hl, Piece.print]
  | some value => simp [Piece.fill, boundValue?, hl, Piece.print]

theorem substitute_printRow (values : Bindings) {row : List Piece} (h : LooseRow row) :
    substitute values (printRow row) = printRow (row.map (Piece.fill (boundValue? values))) := by
  refine replaceMatches_printRow ?_ (fun inner s hin => substitute_token values hin s) h
  intro s hs
  rw [valueToken?, tokenAt?_eq_none hs, Option.map_none]

theorem strip_printRow {row : List Piece} (h : LooseRow row) :
    strip (printRow row) = printRow (row.map (Piece.fill fun _ => some [])) := by
  refine replaceMatches_printRow ?_ ?_ h
  · intro s hs
    rw [leftover?, tokenAt?_eq_none hs, Option.map_none]
  · intro inner s hin
    have hat : leftover? (token inner ++ s) = some (inner, (token inner).length) :=
      tokenAt?_token_of_braceFree (by decide) (fun c hc => by simp_all [isBrace]) hin s
    refine replaceMatches_match (token_ne_nil inner) ?_
    rw [hat]
    rfl

end EmailTemplate.Template
