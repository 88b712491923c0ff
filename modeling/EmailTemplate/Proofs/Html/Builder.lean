import EmailTemplate.Html.Construction.Foreign
import EmailTemplate.Proofs.Html.Root
import Mathlib

/-! The moves of tree construction put nothing into a void element, and leave the element of the document
where it is. -/

namespace EmailTemplate.Html

open Std.Do

set_option mvcgen.warning false

/-- The name of a void element. -/
def isVoidName (name : String) : Bool := Tag.isVoid ⟨.html, name⟩

theorem isVoidName_of_ne {name : String} (h : ∀ n ∈ voidNames, name ≠ n) :
    isVoidName name = false := by
  rw [isVoidName, Tag.isVoid, beq_self_eq_true, Bool.true_and, List.contains_eq_mem,
    decide_eq_false_iff_not]
  exact fun hmem => h name hmem rfl

/-- What is kept in mind of a document under construction: nodes that can hold something, and the
element of the document once it is there. -/
structure Kept where
  nodes : List Nat
  root : Option Nat

namespace Kept

def none : Kept := ⟨[], .none⟩

def also (kept : Kept) (n : Nat) : Kept := { kept with nodes := n :: kept.nodes }

/-- Whether a node is neither the element of the document nor the document. -/
def Clear (kept : Kept) (n : Nat) : Prop := ∀ r ∈ kept.root, n ≠ r ∧ n ≠ 0

end Kept

/-- The open elements and the head can hold something, as can the nodes that are kept in mind, no
formatting element is void, and the element of the document is in its place. -/
structure Builder.Sound (kept : Kept) (b : Builder) : Prop where
  arena : b.arena.Sound
  opened : ∀ n ∈ b.openElements, b.arena.CanHold n
  head : ∀ n ∈ b.head, b.arena.CanHold n
  formatting : ∀ n tag, .element n tag ∈ b.formatting → isVoidName tag.name = false
  nodes : ∀ n ∈ kept.nodes, b.arena.CanHold n
  root : ∀ r ∈ kept.root, b.arena.IsRoot r

variable {kept : Kept} {b b' : Builder}

/-- A state that has the document of a sound one and lists no more nodes is sound. -/
theorem Builder.Sound.mono (h : b.Sound kept) (harena : b'.arena = b.arena)
    (hopen : b'.openElements ⊆ b.openElements) (hhead : b'.head = b.head)
    (hformatting : b'.formatting ⊆ b.formatting) : b'.Sound kept where
  arena := harena ▸ h.arena
  opened n hn := harena ▸ h.opened n (hopen hn)
  head n hn := harena ▸ h.head n (hhead ▸ hn)
  formatting n tag hn := h.formatting n tag (hformatting hn)
  nodes n hn := harena ▸ h.nodes n hn
  root r hr := harena ▸ h.root r hr

/-- So is one that differs in nothing of the kind. -/
theorem Builder.Sound.same (h : b.Sound kept) (harena : b'.arena = b.arena)
    (hopen : b'.openElements = b.openElements) (hhead : b'.head = b.head)
    (hformatting : b'.formatting = b.formatting) : b'.Sound kept :=
  h.mono harena (hopen ▸ List.Subset.refl _) hhead (hformatting ▸ List.Subset.refl _)

/-- So is one whose document came from a sound one. -/
theorem Builder.Sound.leads (h : b.Sound kept) {a : Arena} (ha : b.arena.Leads a)
    (hroot : ∀ r ∈ kept.root, a.IsRoot r) : ({ b with arena := a } : Builder).Sound kept where
  arena := ha.sound
  opened n hn := ha.grows n (h.opened n hn)
  head n hn := ha.grows n (h.head n hn)
  formatting := h.formatting
  nodes n hn := ha.grows n (h.nodes n hn)
  root := hroot

theorem Builder.Sound.setOpen (h : b.Sound kept) {row : List Nat}
    (hrow : ∀ n ∈ row, b.arena.CanHold n) : ({ b with openElements := row } : Builder).Sound kept :=
  { h with opened := hrow }

theorem Builder.Sound.setFormatting (h : b.Sound kept) {entries : List Formatting}
    (hentries : ∀ n tag, .element n tag ∈ entries → isVoidName tag.name = false) :
    ({ b with formatting := entries } : Builder).Sound kept :=
  { h with formatting := hentries }

theorem Builder.Sound.setHead {n : Nat} (h : b.Sound (kept.also n)) :
    ({ b with head := some n } : Builder).Sound kept where
  arena := h.arena
  opened := h.opened
  head m hm := by
    obtain rfl : n = m := by simpa using hm
    exact h.nodes n List.mem_cons_self
  formatting := h.formatting
  nodes m hm := h.nodes m (List.mem_cons_of_mem _ hm)
  root := h.root

theorem Builder.Sound.keep (h : b.Sound kept) {n : Nat} (hn : b.arena.CanHold n) :
    b.Sound (kept.also n) :=
  { h with nodes := List.forall_mem_cons.mpr ⟨hn, h.nodes⟩ }

theorem Builder.Sound.first {n : Nat} (h : b.Sound (kept.also n)) : b.arena.CanHold n :=
  h.nodes n List.mem_cons_self

theorem Builder.Sound.drop {n : Nat} (h : b.Sound (kept.also n)) : b.Sound kept :=
  { h with nodes := fun m hm => h.nodes m (List.mem_cons_of_mem _ hm) }

theorem Builder.Sound.current (h : b.Sound kept) : b.arena.CanHold (Build.current b) := by
  rw [Build.current]
  cases hopen : b.openElements with
  | nil => exact h.arena.root
  | cons n rest => exact h.opened n (by simp [hopen])

theorem Builder.Sound.rootElement (h : b.Sound kept) : b.arena.CanHold (Build.rootElement b) := by
  rw [Build.rootElement]
  cases hopen : b.openElements with
  | nil => exact h.arena.root
  | cons n rest =>
    refine h.opened _ ?_
    rw [hopen, List.getLastD_cons]
    exact List.getLastD_mem_cons

/-- A place whose parents can hold something. -/
def Build.Place.Sound (a : Arena) : Build.Place → Prop
  | .last p => a.CanHold p
  | .before _ outer => a.CanHold outer

theorem Builder.Sound.placeIn (h : b.Sound kept) {target : Nat} (ht : b.arena.CanHold target) :
    (Build.placeIn b target).Sound b.arena := by
  have hinside : ∀ n, b.arena.CanHold n →
      Build.Place.Sound b.arena (.last ((b.arena.contentOf? n).getD n)) := by
    intro n hn
    cases hc : b.arena.contentOf? n with
    | none => exact hn
    | some c => exact h.arena.contentOf? hc
  have hgo : ∀ row : List Nat, (∀ n ∈ row, b.arena.CanHold n) →
      (Build.placeIn.go b (fun n => .last ((b.arena.contentOf? n).getD n)) row).Sound b.arena := by
    intro row
    induction row with
    | nil => exact fun _ => h.rootElement
    | cons n rest ih =>
      intro hrow
      rw [Build.placeIn.go]
      split
      · exact hinside n (hrow n List.mem_cons_self)
      · split
        · cases rest with
          | nil => exact h.arena.root
          | cons m rest => exact hrow m (by simp)
        · exact ih fun m hm => hrow m (List.mem_cons_of_mem _ hm)
  rw [Build.placeIn]
  split
  · exact hgo _ h.opened
  · exact hinside target ht

theorem Builder.Sound.atCurrent (h : b.Sound kept) :
    b.Sound kept ∧ (Build.placeIn b (Build.current b)).Sound b.arena :=
  ⟨h, h.placeIn h.current⟩

theorem Builder.Sound.putCurrent {n : Nat} (h : b.Sound kept) (hn : kept.Clear n) :
    b.Sound kept ∧ (Build.placeIn b (Build.current b)).Sound b.arena ∧ kept.Clear n :=
  ⟨h, h.placeIn h.current, hn⟩

namespace Build

/-- The move leads from sound states to sound ones. -/
abbrev Keeps {α : Type} (kept : Kept) (m : Build α) : Prop :=
  ⦃fun b => ⌜b.Sound kept⌝⦄ m ⦃⇓ _ => fun b => ⌜b.Sound kept⌝⦄

variable (kept)

theorem keeps_modify {f : Builder → Builder} (hf : ∀ b, b.Sound kept → (f b).Sound kept) :
    Keeps kept (modify f) := by
  mvcgen
  rename_i b h t
  exact hf b h

theorem keeps_open {f : Builder → List Nat} (hf : ∀ b, f b ⊆ b.openElements) :
    Keeps kept (modify fun b => { b with openElements := f b }) :=
  keeps_modify kept fun b h => h.mono rfl (hf b) rfl (List.Subset.refl _)

theorem keeps_formatting {f : Builder → List Formatting} (hf : ∀ b, f b ⊆ b.formatting) :
    Keeps kept (modify fun b => { b with formatting := f b }) :=
  keeps_modify kept fun b h => h.mono rfl (List.Subset.refl _) rfl (hf b)

/-- A move that touches neither the document nor a list of nodes. -/
theorem keeps_rest {f : Builder → Builder} (harena : ∀ b, (f b).arena = b.arena)
    (hopen : ∀ b, (f b).openElements = b.openElements) (hhead : ∀ b, (f b).head = b.head)
    (hformatting : ∀ b, (f b).formatting = b.formatting) : Keeps kept (modify f) :=
  keeps_modify kept fun b h => h.same (harena b) (hopen b) (hhead b) (hformatting b)

theorem keeps_arena {f : Builder → Arena}
    (hf : ∀ b : Builder, b.Sound kept → b.arena.Leads (f b))
    (hroot : ∀ (b : Builder) (r : Nat), b.arena.IsRoot r → (f b).IsRoot r) :
    Keeps kept (modify fun b => { b with arena := f b }) :=
  keeps_modify kept fun b h => h.leads (hf b h) fun r hr => hroot b r (h.root r hr)

/-! ### Closing -/

@[spec]
theorem pop_keeps : Keeps kept pop := keeps_open kept fun _ => List.drop_subset _ _

@[spec]
theorem popThrough_keeps (found : Builder → Nat → Bool) : Keeps kept (popThrough found) :=
  keeps_open kept fun _ => List.Subset.trans (List.drop_subset _ _) (List.dropWhile_subset _)

@[spec]
theorem popThroughName_keeps (name : String) : Keeps kept (popThroughName name) :=
  popThrough_keeps kept _

@[spec]
theorem popTo_keeps (found : Tag → Bool) : Keeps kept (popTo found) :=
  keeps_open kept fun _ => List.dropWhile_subset _

@[spec]
theorem closeImplied_keeps (names : List String) : Keeps kept (closeImplied names) :=
  keeps_open kept fun _ => List.dropWhile_subset _

@[spec]
theorem closeImpliedBut_keeps (name : String) : Keeps kept (closeImpliedBut name) :=
  closeImplied_keeps kept _

@[spec]
theorem removeOpen_keeps (n : Nat) : Keeps kept (removeOpen n) :=
  keeps_open kept fun _ => List.filter_sublist.subset

@[spec]
theorem closeParagraph_keeps : Keeps kept closeParagraph := by
  mvcgen [closeParagraph]

@[spec]
theorem closeParagraphInScope_keeps : Keeps kept closeParagraphInScope := by
  mvcgen [closeParagraphInScope]

/-! ### State -/

@[spec]
theorem setMode_keeps (mode : Mode) : Keeps kept (setMode mode) :=
  keeps_rest kept (fun _ => rfl) (fun _ => rfl) (fun _ => rfl) fun _ => rfl

@[spec]
theorem forbidFrameset_keeps : Keeps kept forbidFrameset :=
  keeps_rest kept (fun _ => rfl) (fun _ => rfl) (fun _ => rfl) fun _ => rfl

@[spec]
theorem enterText_keeps (textMode : TextMode) : Keeps kept (enterText textMode) :=
  keeps_rest kept (fun _ => rfl) (fun _ => rfl) (fun _ => rfl) fun _ => rfl

@[spec]
theorem resetMode_keeps : Keeps kept resetMode :=
  keeps_rest kept (fun _ => rfl) (fun _ => rfl) (fun _ => rfl) fun _ => rfl

@[spec]
theorem setTemplateMode_keeps (mode : Mode) : Keeps kept (setTemplateMode mode) :=
  keeps_rest kept (fun _ => rfl) (fun _ => rfl) (fun _ => rfl) fun _ => rfl

@[spec]
theorem popTemplateMode_keeps : Keeps kept popTemplateMode :=
  keeps_rest kept (fun _ => rfl) (fun _ => rfl) (fun _ => rfl) fun _ => rfl

@[spec]
theorem clearToMarker_keeps : Keeps kept clearToMarker :=
  keeps_formatting kept fun _ =>
    List.Subset.trans (List.drop_subset _ _) (List.dropWhile_subset _)

@[spec]
theorem forgetFormatting_keeps (n : Nat) : Keeps kept (forgetFormatting n) :=
  keeps_formatting kept fun _ => List.filter_sublist.subset

@[spec]
theorem pushMarker_keeps : Keeps kept pushMarker :=
  keeps_modify kept fun _ h => { h with
    formatting := fun n tag hn => h.formatting n tag (by simpa using hn) }

/-! ### Inserting -/

@[spec]
theorem put_keeps (place : Place) (n : Nat) :
    ⦃fun b => ⌜b.Sound kept ∧ place.Sound b.arena ∧ kept.Clear n⌝⦄ put place n
    ⦃⇓ _ => fun b => ⌜b.Sound kept⌝⦄ := by
  mvcgen [put]
  rename_i b h t
  obtain ⟨h, hp, hn⟩ := h
  refine h.leads ?_ fun r hr => ?_
  · cases place with
    | last p => exact h.arena.append hp n
    | before table outer =>
      dsimp only
      split
      · exact h.arena.insertBefore table n
      · exact h.arena.append hp n
  · have hroot := h.root r hr
    cases place with
    | last p => exact hroot.append (hn r hr).1 p
    | before table outer =>
      dsimp only
      split
      · exact hroot.insertBefore (hn r hr).1 table
      · exact hroot.append (hn r hr).1 outer

@[spec]
theorem putText_keeps (place : Place) (s : String) :
    ⦃fun b => ⌜b.Sound kept ∧ place.Sound b.arena⌝⦄ putText place s
    ⦃⇓ _ => fun b => ⌜b.Sound kept⌝⦄ := by
  mvcgen [putText]
  rename_i b h t
  obtain ⟨h, hp⟩ := h
  refine h.leads ?_ fun r hr => ?_
  · cases place with
    | last p => exact h.arena.appendText hp s
    | before table outer =>
      dsimp only
      split
      · exact h.arena.insertTextBefore table s
      · exact h.arena.appendText hp s
  · have hroot := h.root r hr
    cases place with
    | last p => exact hroot.appendText p s
    | before table outer =>
      dsimp only
      split
      · exact hroot.insertTextBefore table s
      · exact hroot.appendText outer s

@[spec]
theorem insertText_keeps (s : String) : Keeps kept (insertText s) := by
  mvcgen [insertText]
  rename_i h
  exact h.atCurrent

theorem createNode_keeps {kind : NodeKind} (hc : kind.content? = none) :
    ⦃fun b => ⌜b.Sound kept⌝⦄ createNode kind ⦃⇓ n => fun b => ⌜b.Sound kept ∧ kept.Clear n⌝⦄ := by
  mvcgen [createNode]
  rename_i b h
  refine ⟨h.leads (h.arena.create (by simp [hc])) fun r hr => (h.root r hr).create kind, ?_⟩
  exact fun r hr => (h.root r hr).create_ne kind

@[spec]
theorem insertComment_keeps (s : String) : Keeps kept (insertComment s) := by
  have hcreate := @createNode_keeps kept (.comment s) rfl
  mvcgen [insertComment, hcreate]
  rename_i h
  exact h.1.putCurrent h.2

theorem createElement_keeps (tag : Tag) (attributes : List Attribute) :
    ⦃fun b => ⌜b.Sound kept⌝⦄ createElement tag attributes
    ⦃⇓ n => fun b => ⌜b.Sound kept ∧ kept.Clear n⌝⦄ := by
  mvcgen [createElement]
  rename_i b h
  refine ⟨h.leads (h.arena.createElement tag attributes) fun r hr => ?_, fun r hr => ?_⟩
  · exact (h.root r hr).createElement tag attributes
  · exact (h.root r hr).createElement_ne tag attributes

/-- An element that is not void can hold something. -/
theorem createElement_holds {tag : Tag} (ht : tag.isVoid = false) (attributes : List Attribute) :
    ⦃fun b => ⌜b.Sound kept⌝⦄ createElement tag attributes
    ⦃⇓ n => fun b => ⌜b.Sound (kept.also n) ∧ kept.Clear n⌝⦄ := by
  mvcgen [createElement]
  rename_i b h
  have hleads := h.leads (h.arena.createElement tag attributes) fun r hr =>
    (h.root r hr).createElement tag attributes
  refine ⟨hleads.keep (b.arena.canHold_createElement ht attributes), fun r hr => ?_⟩
  exact (h.root r hr).createElement_ne tag attributes

theorem insertClosed_holds {tag : Tag} (ht : tag.isVoid = false) (attributes : List Attribute) :
    ⦃fun b => ⌜b.Sound kept⌝⦄ insertClosed tag attributes
    ⦃⇓ n => fun b => ⌜b.Sound (kept.also n)⌝⦄ := by
  have hcreate := createElement_holds kept ht attributes
  have hput := fun n => put_keeps (kept.also n)
  mvcgen [insertClosed, hcreate, hput, -put_keeps]
  rename_i h
  exact h.1.putCurrent h.2

@[spec]
theorem insertClosed_keeps (tag : Tag) (attributes : List Attribute) :
    Keeps kept (insertClosed tag attributes) := by
  have hcreate := createElement_keeps kept tag attributes
  mvcgen [insertClosed, hcreate]
  rename_i h
  exact h.1.putCurrent h.2

@[spec]
theorem insertClosedFor_keeps (tag : StartTag) : Keeps kept (insertClosedFor tag) :=
  insertClosed_keeps kept _ _

@[spec]
theorem push_keeps (n : Nat) : ⦃fun b => ⌜b.Sound kept ∧ b.arena.CanHold n⌝⦄ push n
    ⦃⇓ _ => fun b => ⌜b.Sound kept⌝⦄ := by
  mvcgen [push]
  rename_i h _
  exact h.1.setOpen (List.forall_mem_cons.mpr ⟨h.2, h.1.opened⟩)

theorem insertOpen_holds {tag : Tag} (ht : tag.isVoid = false) (attributes : List Attribute) :
    ⦃fun b => ⌜b.Sound kept⌝⦄ insertOpen tag attributes
    ⦃⇓ n => fun b => ⌜b.Sound (kept.also n)⌝⦄ := by
  have hinsert := insertClosed_holds kept ht attributes
  have hpush := fun n => push_keeps (kept.also n) n
  mvcgen [insertOpen, hinsert, hpush, -insertClosed_keeps, -push_keeps]
  rename_i h
  exact ⟨h, h.first⟩

@[spec]
theorem insertOpen_keeps {tag : Tag} (ht : tag.isVoid = false) (attributes : List Attribute) :
    Keeps kept (insertOpen tag attributes) := by
  have hholds := insertOpen_holds kept ht attributes
  mvcgen [hholds]
  exact Builder.Sound.drop

theorem insertFor_holds {tag : StartTag} (ht : isVoidName tag.name = false) :
    ⦃fun b => ⌜b.Sound kept⌝⦄ insertFor tag ⦃⇓ n => fun b => ⌜b.Sound (kept.also n)⌝⦄ :=
  insertOpen_holds kept ht _

@[spec]
theorem insertFor_keeps {tag : StartTag} (ht : isVoidName tag.name = false) :
    Keeps kept (insertFor tag) :=
  insertOpen_keeps kept ht _

theorem insertPhantom_holds {name : String} (hn : isVoidName name = false) :
    ⦃fun b => ⌜b.Sound kept⌝⦄ insertPhantom name ⦃⇓ n => fun b => ⌜b.Sound (kept.also n)⌝⦄ :=
  insertOpen_holds kept hn _

@[spec]
theorem insertPhantom_keeps {name : String} (hn : isVoidName name = false) :
    Keeps kept (insertPhantom name) :=
  insertOpen_keeps kept hn _

@[spec]
theorem insertWithText_keeps {tag : StartTag} (ht : isVoidName tag.name = false)
    (textMode : TextMode) : Keeps kept (insertWithText tag textMode) := by
  mvcgen [insertWithText]

@[spec]
theorem createRoot_keeps (tag : StartTag) : Keeps kept (createRoot tag) := by
  have hcreate := @createElement_holds kept ⟨.html, "html"⟩ rfl (plainAttributes tag)
  have hput := fun n => put_keeps (kept.also n) (.last 0) n
  have hpush := fun n => push_keeps (kept.also n) n
  mvcgen [createRoot, hcreate, hput, hpush, -put_keeps, -push_keeps]
  · rename_i h
    exact ⟨h.1, h.1.arena.root, h.2⟩
  · rename_i h
    exact ⟨h, h.first⟩
  · exact Builder.Sound.drop

@[spec]
theorem addAttributes_keeps (n : Nat) (tag : StartTag) : Keeps kept (addAttributes n tag) :=
  keeps_arena kept (fun _ h => h.arena.addAttributes n _) fun _ _ h => h.addAttributes n _

@[spec]
theorem appendComment_keeps (parent : Nat) (s : String) :
    ⦃fun b => ⌜b.Sound kept ∧ b.arena.CanHold parent⌝⦄ appendComment parent s
    ⦃⇓ _ => fun b => ⌜b.Sound kept⌝⦄ := by
  have hcreate := @createNode_keeps (kept.also parent) (.comment s) rfl
  have hput := put_keeps (kept.also parent)
  mvcgen [appendComment, hcreate, hput, -put_keeps]
  · rename_i h
    exact h.1.keep h.2
  · rename_i h
    exact ⟨h.1, h.1.first, h.2⟩
  · exact Builder.Sound.drop

end Build

end EmailTemplate.Html
