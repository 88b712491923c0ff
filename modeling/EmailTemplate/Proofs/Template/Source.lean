import EmailTemplate.Proofs.Template.Outline
import EmailTemplate.Proofs.Template.Row
import EmailTemplate.Template.Loop

/-! Well-formed templates as trees, and what they mean for given data. -/

namespace EmailTemplate.Template

open Text

/-- A template: plain text and tokens for values, block sections and loops. -/
inductive Source
  | nil
  | piece (p : Piece) (rest : Source)
  | block (name : List Char) (body rest : Source)
  | loop (name : List Char) (body rest : Source)
  deriving DecidableEq, Repr

def loopWord (name : List Char) : List Char := ['#', 'e', 'a', 'c', 'h', ' '] ++ name

def loopOpener (name : List Char) : List Char := token (loopWord name)

def indexWord : List Char := ['@', 'i', 'n', 'd', 'e', 'x']

/-- The interior of a token that wants a value. -/
def Wanted (inner : List Char) : Prop :=
  BraceFree inner ∧ trim inner ≠ [] ∧ (trim inner).head? ≠ some '#' ∧ (trim inner).head? ≠ some '/'

instance (inner : List Char) : Decidable (Wanted inner) :=
  inferInstanceAs (Decidable (_ ∧ _))

def Piece.WellFormed : Piece → Prop
  | text s => BraceFree s
  | value inner => Wanted inner

instance : (p : Piece) → Decidable p.WellFormed
  | .text s => inferInstanceAs (Decidable (BraceFree s))
  | .value inner => inferInstanceAs (Decidable (Wanted inner))

/-- One item of a list, as a loop comes to it. -/
structure Turn where
  list : List Char
  item : Json.Value
  index : Nat

/-- What a token means in the turn of a loop alone: a field of the item, or the index. -/
def Turn.value? (turn : Turn) (inner : List Char) : Option (List Char) :=
  match (after? (turn.list ++ ['.']) inner).bind fun key => turn.item.get? (String.ofList key) with
  | some field => some field.stringify.toList
  | none => if inner = indexWord then some (toString turn.index).toList else none

/-- What a token means: in a loop first what the turn tells, then what its name is bound to. -/
def valueOf (data : Json.Value) (turn : Option Turn) (inner : List Char) : List Char :=
  match turn.bind (·.value? inner) with
  | some text => text
  | none => (boundValue? (flatten data) inner).getD []

/-- The items of the list of a name. -/
def itemsOf (data : Json.Value) (name : List Char) : List Json.Value :=
  ((data.get? (String.ofList name)).bind (·.asArray?)).getD []

namespace Source

def print : Source → List Char
  | nil => []
  | piece p rest => p.print ++ rest.print
  | block name body rest => sectionOpener name ++ (body.print ++ (sectionCloser name ++ rest.print))
  | loop name body rest => loopOpener name ++ (body.print ++ (loopCloser ++ rest.print))

def blockNames : Source → List (List Char)
  | nil => []
  | piece _ rest => rest.blockNames
  | block name body rest => name :: (body.blockNames ++ rest.blockNames)
  | loop _ body rest => body.blockNames ++ rest.blockNames

def Loopless : Source → Prop
  | nil => True
  | piece _ rest => rest.Loopless
  | block _ body rest => body.Loopless ∧ rest.Loopless
  | loop _ _ _ => False

/-- No section stands in another of its name, and no loop in a loop. -/
def WellFormed : Source → Prop
  | nil => True
  | piece p rest => p.WellFormed ∧ rest.WellFormed
  | block name body rest =>
    IsName name ∧ name ∉ body.blockNames ∧ body.WellFormed ∧ rest.WellFormed
  | loop name body rest => IsName name ∧ body.Loopless ∧ body.WellFormed ∧ rest.WellFormed

instance decidableLoopless : (t : Source) → Decidable t.Loopless
  | nil => isTrue trivial
  | piece _ rest => decidableLoopless rest
  | block _ body rest =>
    have := decidableLoopless body
    have := decidableLoopless rest
    inferInstanceAs (Decidable (body.Loopless ∧ rest.Loopless))
  | loop _ _ _ => isFalse id

instance decidableWellFormed : (t : Source) → Decidable t.WellFormed
  | nil => isTrue trivial
  | piece p rest =>
    have := decidableWellFormed rest
    inferInstanceAs (Decidable (p.WellFormed ∧ rest.WellFormed))
  | block name body rest =>
    have := decidableWellFormed body
    have := decidableWellFormed rest
    inferInstanceAs
      (Decidable (IsName name ∧ name ∉ body.blockNames ∧ body.WellFormed ∧ rest.WellFormed))
  | loop name body rest =>
    have := decidableWellFormed body
    have := decidableWellFormed rest
    inferInstanceAs
      (Decidable (IsName name ∧ body.Loopless ∧ body.WellFormed ∧ rest.WellFormed))

/-- The meaning of a template, inside the turn of a loop or outside. -/
def eval (data : Json.Value) (turn : Option Turn) : Source → List Char
  | nil => []
  | piece (.text s) rest => s ++ rest.eval data turn
  | piece (.value inner) rest => valueOf data turn inner ++ rest.eval data turn
  | block name body rest =>
    (if isVisible data name then body.eval data turn else []) ++ rest.eval data turn
  | loop name body rest =>
    ((itemsOf data name).zipIdx.flatMap fun (item, index) =>
      body.eval data (some ⟨name, item, index⟩)) ++ rest.eval data turn

/-! ### Sections -/

def outline : Source → Outline
  | nil => .nil
  | piece p rest => .ofChars p.print rest.outline
  | block name body rest => .wrap name body.outline rest.outline
  | loop name body rest =>
    .ofChars (loopOpener name) (body.outline.append (.ofChars loopCloser rest.outline))

@[simp]
theorem outline_print (t : Source) : t.outline.print = t.print := by
  induction t with
  | nil => rfl
  | piece p rest ih => simp [outline, print, ih]
  | block name body rest ihb ihr => simp [outline, print, Outline.print, ihb, ihr]
  | loop name body rest ihb ihr => simp [outline, print, ihb, ihr]

@[simp]
theorem outline_names (t : Source) : t.outline.names = t.blockNames := by
  induction t with
  | nil => rfl
  | piece p rest ih => simp [outline, blockNames, ih]
  | block name body rest ihb ihr => simp [outline, blockNames, Outline.names, ihb, ihr]
  | loop name body rest ihb ihr => simp [outline, blockNames, ihb, ihr]

theorem outline_scoped {t : Source} (h : t.WellFormed) : t.outline.Scoped := by
  induction t with
  | nil => trivial
  | piece p rest ih => simpa [outline] using ih h.2
  | block name body rest ihb ihr =>
    obtain ⟨hname, hn, hb, hr⟩ := h
    exact ⟨hname, by simpa using hn, ihb hb, ihr hr⟩
  | loop name body rest ihb ihr =>
    obtain ⟨-, -, hb, hr⟩ := h
    simpa [outline] using ⟨ihb hb, ihr hr⟩

end Source

end EmailTemplate.Template
