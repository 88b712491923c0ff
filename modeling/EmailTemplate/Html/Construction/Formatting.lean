import EmailTemplate.Html.Construction.Builder

/-! Formatting elements: they are opened again where other elements cut them off, and end tags that
cross are untangled. -/

namespace EmailTemplate.Html.Build

def sinceMarker (b : Builder) : List Formatting := b.formatting.takeWhile (· != .marker)

def isEntryOf (n : Nat) : Formatting → Bool
  | .marker => false
  | .element m _ => m == n

def isFormatting (b : Builder) (n : Nat) : Bool := b.formatting.any (isEntryOf n)

def forgetFormatting (n : Nat) : Build Unit :=
  modify fun b => { b with formatting := b.formatting.filter (!isEntryOf n ·) }

/-- The tag with which a formatting element was opened. -/
def formattingTag? (b : Builder) (n : Nat) : Option StartTag :=
  b.formatting.findSome? fun
    | .marker => none
    | .element m tag => if m = n then some tag else none

/-- Puts an entry in the place of that of another element. -/
def replaceFormatting (n : Nat) (entry : Formatting) : Build Unit :=
  modify fun b =>
    let entries := b.formatting.map fun e => if isEntryOf n e then entry else e
    { b with formatting := entries }

def reopen (n : Nat) (tag : StartTag) : Build Unit := do
  let new ← insertFor tag
  replaceFormatting n (.element new tag)

/-- Opens again what was cut off since the last mark or the last formatting element that is still
open. -/
def reconstruct : Build Unit := do
  let b ← get
  let lost := b.formatting.takeWhile fun
    | .marker => false
    | .element n _ => !b.openElements.contains n
  lost.reverse.forM fun
    | .marker => pure ()
    | .element n tag => reopen n tag

def sameTag (s t : StartTag) : Bool :=
  s.name == t.name && s.attributes.length == t.attributes.length &&
    s.attributes.all t.attributes.contains

/-- Forgets the earliest of three entries since the last mark that are like a tag. -/
def limitAlike (tag : StartTag) : Build Unit := do
  let b ← get
  let alike := (sinceMarker b).filterMap fun
    | .marker => none
    | .element n t => if sameTag t tag then some n else none
  if 3 ≤ alike.length then
    match alike.getLast? with
    | some n => forgetFormatting n
    | none => pure ()

def insertFormatting (tag : StartTag) : Build Unit := do
  limitAlike tag
  let n ← insertFor tag
  modify fun b => { b with formatting := .element n tag :: b.formatting }

/-- An end tag that no rule of its own reads: closes the innermost element of its name, unless a
special element stands in the way. -/
def closeAnyOther (name : String) : Build Unit := do
  let b ← get
  match b.openElements.find? fun n => isNamed b name n || (tagOf b n).isSpecial with
  | none => pure ()
  | some n =>
    if isNamed b name n then
      modify fun b => { b with openElements := (b.openElements.dropWhile (· != n)).drop 1 }

/-- The walk from the furthest block out to the formatting element: elements between are taken out
of the stack, or made anew and filled with what was inside. -/
structure Untangling where
  last : Nat
  bookmark : Option Nat

/-- Goes through the open elements between the furthest block and the formatting element, innermost
first. The first three formatting elements are copied, and all others are dropped. -/
def untangle (furthest : Nat) : Nat → List Nat → Untangling → Build Untangling
  | _, [], u => pure u
  | step, n :: outer, u => do
    let b ← get
    if 3 < step then
      forgetFormatting n
      removeOpen n
      untangle furthest (step + 1) outer u
    else match formattingTag? b n with
      | none =>
        removeOpen n
        untangle furthest (step + 1) outer u
      | some tag =>
        let new ← createElement ⟨.html, tag.name⟩ (plainAttributes tag)
        modify fun b => { b with openElements := b.openElements.replace n new }
        replaceFormatting n (.element new tag)
        put (.last new) u.last
        untangle furthest (step + 1) outer
          ⟨new, if u.last = furthest then some new else u.bookmark⟩

/-- Puts an entry just before another, which is after it in the order of opening. -/
def entryAfter (n : Nat) (entry : Formatting) : List Formatting → List Formatting
  | [] => [entry]
  | e :: rest => if isEntryOf n e then entry :: e :: rest else e :: entryAfter n entry rest

/-- Puts an element just inside another among the open elements. -/
def openInside (n new : Nat) : List Nat → List Nat
  | [] => [new]
  | m :: rest => if m = n then new :: m :: rest else m :: openInside n new rest

/-- Puts a new element into the furthest block, around all that is in it, and lets it count as the
formatting element. -/
def renew (element : Nat) (tag : StartTag) (furthest : Nat) (bookmark : Option Nat) (new : Nat) :
    Build Unit := do
  modify fun b => { b with arena := b.arena.moveChildren furthest new }
  put (.last furthest) new
  match bookmark with
  | none => replaceFormatting element (.element new tag)
  | some m =>
    modify fun b =>
      let entries := entryAfter m (.element new tag) b.formatting
      { b with formatting := entries.filter (!isEntryOf element ·) }
  removeOpen element
  modify fun b => { b with openElements := openInside furthest new b.openElements }

/-- Untangles one formatting element from the block that it reaches into. -/
def adopt (element : Nat) (tag : StartTag) (furthest common : Nat) (between : List Nat) :
    Build Unit := do
  let u ← untangle furthest 1 between ⟨furthest, none⟩
  modify fun b => { b with arena := b.arena.detach u.last }
  let b ← get
  put (placeIn b common) u.last
  let new ← createElement ⟨.html, tag.name⟩ (plainAttributes tag)
  renew element tag furthest u.bookmark new

/-- Rounds of the end tag of a formatting element, up to a number. -/
def adoptionRounds (name : String) : Nat → Build Unit
  | 0 => pure ()
  | rounds + 1 => do
    let b ← get
    let entry := (sinceMarker b).findSome? fun
      | .marker => none
      | .element n tag => if tag.name = name then some (n, tag) else none
    match entry with
    | none => closeAnyOther name
    | some (element, tag) =>
      if !b.openElements.contains element then forgetFormatting element
      else if !inScope b Tag.endsScope (· == element) then pure ()
      else
        let inside := b.openElements.takeWhile (· != element)
        let outside := (b.openElements.drop inside.length).drop 1
        match inside.reverse.find? fun n => (tagOf b n).isSpecial with
        | none =>
          set { b with openElements := outside }
          forgetFormatting element
        | some furthest =>
          let between := (inside.dropWhile (· != furthest)).drop 1
          adopt element tag furthest (outside.headD 0) between
          adoptionRounds name rounds

def closeFormatting (name : String) : Build Unit := do
  let b ← get
  if currentIs b name && !isFormatting b (current b) then pop
  else adoptionRounds name 8

/-- A link cannot stand in a link: the earlier one is closed. -/
def closeEarlierLink : Build Unit := do
  let b ← get
  let earlier := (sinceMarker b).findSome? fun
    | .marker => none
    | .element n _ => if isNamed b "a" n then some n else none
  match earlier with
  | none => pure ()
  | some n =>
    closeFormatting "a"
    forgetFormatting n
    removeOpen n

end EmailTemplate.Html.Build
