import EmailTemplate.Proofs.Html.Markup
import EmailTemplate.Proofs.Template.Outline

/-! Documents whose elements are wrapped in sections, several names to an element, and their markup
as an outline. -/

namespace EmailTemplate.Html

open Template

/-- An element inside sections of some names, the first outermost, before the rest of its row. -/
def nested (names : List String) (e : Element) (rest : Forest) : Forest :=
  match names with
  | [] => e.followedBy rest
  | n :: names => .text (String.ofList (sectionOpener n.toList))
      (nested names e (.text (String.ofList (sectionCloser n.toList)) rest))

/-- A place for one more name. -/
def addName (marks : Nat → List String) (i : Nat) (name : String) : Nat → List String :=
  fun j => if j = i then marks j ++ [name] else marks j

namespace Forest

/-- Every element inside sections of the names at its place; the first has the given place. -/
def wrapAll (marks : Nat → List String) (index : Nat) : Forest → Forest
  | nil => nil
  | text s rest => text s (rest.wrapAll marks index)
  | comment s rest => comment s (rest.wrapAll marks index)
  | doctype name rest => doctype name (rest.wrapAll marks index)
  | element tag attributes children rest =>
    nested (marks index) ⟨tag, attributes, children.wrapAll marks (index + 1)⟩
      (rest.wrapAll marks (index + 1 + children.count))

/-- The document without the elements at some places. -/
def pruneFrom (gone : Nat → Bool) (index : Nat) : Forest → Forest
  | nil => nil
  | text s rest => text s (rest.pruneFrom gone index)
  | comment s rest => comment s (rest.pruneFrom gone index)
  | doctype name rest => doctype name (rest.pruneFrom gone index)
  | element tag attributes children rest =>
    if gone index then rest.pruneFrom gone (index + 1 + children.count)
    else element tag attributes (children.pruneFrom gone (index + 1))
      (rest.pruneFrom gone (index + 1 + children.count))

def prune (f : Forest) (gone : Nat → Bool) : Forest := f.pruneFrom gone 0

end Forest

theorem count_nested (names : List String) (e : Element) (rest : Forest) :
    (nested names e rest).count = e.children.count + rest.count + 1 := by
  induction names generalizing rest with
  | nil => rfl
  | cons n names ih => simp [nested, Forest.count, ih]

@[simp]
theorem Forest.count_wrapAll (marks : Nat → List String) (i : Nat) (f : Forest) :
    (f.wrapAll marks i).count = f.count := by
  induction f generalizing i with
  | nil => rfl
  | text s rest ih => exact ih i
  | comment s rest ih => exact ih i
  | doctype name rest ih => exact ih i
  | element tag attributes children rest ihc ihr =>
    simp only [wrapAll, count_nested, ihc, ihr, count]

/-! ### One more wrapping -/

theorem wrap_nested_zero (names : List String) (e : Element) (rest : Forest) (n : String) :
    (nested names e rest).wrap 0 n = nested (names ++ [n]) e rest := by
  induction names generalizing rest with
  | nil => rfl
  | cons m names ih => exact congrArg (Forest.text _) (ih _)

theorem editAt_nested_succ (edit : Element → Forest → Forest) (names : List String) (e : Element)
    (rest : Forest) (i : Nat) :
    (nested names e rest).editAt edit (i + 1) =
      if i < e.children.count then
        nested names { e with children := e.children.editAt edit i } rest
      else nested names e (rest.editAt edit (i - e.children.count)) := by
  induction names generalizing rest with
  | nil => rfl
  | cons m names ih =>
    simp only [nested, Forest.editAt, ih]
    split
    · rfl
    · rfl

theorem Forest.wrapAll_congr {marks marks' : Nat → List String} (f : Forest) {index : Nat}
    (h : ∀ j, index ≤ j → j < index + f.count → marks j = marks' j) :
    f.wrapAll marks index = f.wrapAll marks' index := by
  induction f generalizing index with
  | nil => rfl
  | text s rest ih => exact congrArg (text s) (ih h)
  | comment s rest ih => exact congrArg (comment s) (ih h)
  | doctype n rest ih => exact congrArg (doctype n) (ih h)
  | element tag attributes children rest ihc ihr =>
    simp only [count] at h
    have hi := h index (by omega) (by omega)
    have hc : children.wrapAll marks (index + 1) = children.wrapAll marks' (index + 1) :=
      ihc fun j hj hlt => h j (by omega) (by omega)
    have hr : rest.wrapAll marks (index + 1 + children.count) =
        rest.wrapAll marks' (index + 1 + children.count) :=
      ihr fun j hj hlt => h j (by omega) (by omega)
    simp only [wrapAll, hi, hc, hr]

theorem Forest.wrapAll_addName_of_lt {marks : Nat → List String} {name : String} {i index : Nat}
    (h : i < index) (f : Forest) : f.wrapAll (addName marks i name) index = f.wrapAll marks index :=
  f.wrapAll_congr fun j hj _ => if_neg (by omega)

theorem Forest.wrapAll_addName_of_le {marks : Nat → List String} {name : String} {i index : Nat}
    {f : Forest} (h : index + f.count ≤ i) :
    f.wrapAll (addName marks i name) index = f.wrapAll marks index :=
  f.wrapAll_congr fun j _ hj => if_neg (by omega)

theorem wrap_wrapAll (marks : Nat → List String) (name : String) (f : Forest) (index i : Nat) :
    (f.wrapAll marks index).wrap i name = f.wrapAll (addName marks (index + i) name) index := by
  induction f generalizing index i with
  | nil => rfl
  | text s rest ih => exact congrArg (Forest.text s) (ih index i)
  | comment s rest ih => exact congrArg (Forest.comment s) (ih index i)
  | doctype n rest ih => exact congrArg (Forest.doctype n) (ih index i)
  | element tag attributes children rest ihc ihr =>
    cases i with
    | zero =>
      have hi : addName marks index name index = marks index ++ [name] := if_pos rfl
      rw [Nat.add_zero, Forest.wrapAll, wrap_nested_zero, Forest.wrapAll, hi,
        Forest.wrapAll_addName_of_lt (by omega), Forest.wrapAll_addName_of_lt (by omega)]
    | succ i =>
      have hi : addName marks (index + (i + 1)) name index = marks index := if_neg (by omega)
      rw [Forest.wrapAll, Forest.wrap_eq_editAt, editAt_nested_succ, ← Forest.wrap_eq_editAt,
        ← Forest.wrap_eq_editAt, Forest.wrapAll, hi, Forest.count_wrapAll]
      by_cases hlt : i < children.count
      · have hrest : rest.wrapAll (addName marks (index + (i + 1)) name)
            (index + 1 + children.count) = rest.wrapAll marks (index + 1 + children.count) :=
          Forest.wrapAll_addName_of_lt (by omega) rest
        rw [if_pos hlt, ihc, hrest, show index + 1 + i = index + (i + 1) by omega]
      · have hchildren : children.wrapAll (addName marks (index + (i + 1)) name) (index + 1) =
            children.wrapAll marks (index + 1) := Forest.wrapAll_addName_of_le (by omega)
        rw [if_neg hlt, ihr, hchildren,
          show index + 1 + children.count + (i - children.count) = index + (i + 1) by omega]

/-! ### The markup -/

/-- A text that is written as it is wherever it stands. -/
def Literal (s : List Char) : Prop := s.flatMap escapeTextChar = s

theorem literal_of_forall {s : List Char} (h : ∀ c ∈ s, escapeTextChar c = [c]) : Literal s := by
  induction s with
  | nil => rfl
  | cons c s ih =>
    rw [Literal, List.flatMap_cons, h c (by simp), ih fun d hd => h d (by simp [hd])]
    rfl

theorem print_text_literal {s : List Char} (h : Literal s) (raw hidden : Bool) (rest : Forest) :
    (Forest.text (String.ofList s) rest).print raw hidden = s ++ rest.print raw hidden := by
  have he : escapeText (String.ofList s) = s := by rw [escapeText, String.toList_ofList]; exact h
  simp [Forest.print, he]

/-- The outline of an element inside sections of some names. -/
def nestedOutline (names : List String) (body rest : Outline) : Outline :=
  match names with
  | [] => body.append rest
  | n :: names => .wrap n.toList (nestedOutline names body .nil) rest

/-- The outline of the markup of a wrapped document. -/
def Forest.outline (marks : Nat → List String) (raw hidden : Bool) (index : Nat) : Forest → Outline
  | nil => .nil
  | text s rest =>
    .ofChars (if raw then s.toList else escapeText s) (rest.outline marks raw hidden index)
  | comment s rest => .ofChars (printComment s) (rest.outline marks raw hidden index)
  | doctype name rest => .ofChars (printDoctype name) (rest.outline marks raw hidden index)
  | element tag attributes children rest =>
    let content := children.outline marks tag.isRawText (hidden || tag.isVoid) (index + 1)
    nestedOutline (marks index)
      (.ofChars (if hidden then [] else openingTag tag attributes)
        (content.append (.ofChars (if hidden || tag.isVoid then [] else closingTag tag) .nil)))
      (rest.outline marks raw hidden (index + 1 + children.count))

section Nesting

variable (names : List String) (body rest : Outline)

theorem nestedOutline_print : (nestedOutline names body rest).print =
    (nestedOutline names body .nil).print ++ rest.print := by
  cases names with
  | nil => simp [nestedOutline, Outline.print]
  | cons n names => simp [nestedOutline, Outline.print]

@[simp]
theorem nestedOutline_plain :
    (nestedOutline names body rest).plain = body.plain ++ rest.plain := by
  induction names generalizing rest with
  | nil => simp [nestedOutline]
  | cons n names ih => simp [nestedOutline, Outline.plain, ih]

@[simp]
theorem nestedOutline_shown (visible : List Char → Bool) :
    (nestedOutline names body rest).shown visible =
      (if names.all fun n => visible n.toList then body.shown visible else []) ++
        rest.shown visible := by
  induction names generalizing rest with
  | nil => simp [nestedOutline]
  | cons n names ih => cases h : visible n.toList <;> simp [nestedOutline, Outline.shown, ih, h]

@[simp]
theorem nestedOutline_names : (nestedOutline names body rest).names =
    names.map String.toList ++ (body.names ++ rest.names) := by
  induction names generalizing rest with
  | nil => simp [nestedOutline]
  | cons n names ih => simp [nestedOutline, Outline.names, ih]

variable {names body rest}

theorem nestedOutline_scoped (hname : ∀ n ∈ names, IsName n.toList) (hnodup : names.Nodup)
    (hfree : ∀ n ∈ names, n.toList ∉ body.names) (hbody : body.Scoped) (hrest : rest.Scoped) :
    (nestedOutline names body rest).Scoped := by
  induction names generalizing rest with
  | nil => exact (Outline.append_scoped body rest).mpr ⟨hbody, hrest⟩
  | cons n names ih =>
    rw [List.nodup_cons] at hnodup
    have hmem : n.toList ∉ (nestedOutline names body .nil).names := by
      have hn : n.toList ∉ names.map String.toList := by
        rw [List.mem_map]
        rintro ⟨m, hm, he⟩
        exact hnodup.1 (String.toList_inj.mp he ▸ hm)
      simp [hn, hfree n, Outline.names]
    exact ⟨hname n (by simp), hmem, ih (fun m hm => hname m (by simp [hm])) hnodup.2
      (fun m hm => hfree m (by simp [hm])) trivial, hrest⟩

theorem nested_print {e : Element} {raw hidden : Bool}
    (hlit : ∀ n ∈ names, Literal (sectionOpener n.toList) ∧ Literal (sectionCloser n.toList))
    (he : ∀ f : Forest, (e.followedBy f).print raw hidden = body.print ++ f.print raw hidden)
    (f : Forest) (hf : f.print raw hidden = rest.print) :
    (nested names e f).print raw hidden = (nestedOutline names body rest).print := by
  induction names generalizing f rest with
  | nil => simp [nested, nestedOutline, he, hf]
  | cons n names ih =>
    have hn := hlit n (by simp)
    have hcloser : (Forest.text (String.ofList (sectionCloser n.toList)) f).print raw hidden =
        (Outline.ofChars (sectionCloser n.toList) rest).print := by
      rw [print_text_literal hn.2, hf, Outline.ofChars_print]
    have hinner := ih (fun m hm => hlit m (by simp [hm])) _ hcloser
    rw [nested, print_text_literal hn.1, hinner, nestedOutline_print, nestedOutline, Outline.print]
    simp

end Nesting

namespace Forest

variable {marks : Nat → List String}

theorem outline_plain (f : Forest) (raw hidden : Bool) (index : Nat) :
    (f.outline marks raw hidden index).plain = f.print raw hidden := by
  induction f generalizing raw hidden index with
  | nil => rfl
  | text s rest ih => simp [outline, print, ih]
  | comment s rest ih => simp [outline, print, ih]
  | doctype n rest ih => simp [outline, print, ih]
  | element tag attributes children rest ihc ihr =>
    simp [outline, print_element, ihc, ihr, Outline.plain]

theorem outline_print
    (hlit : ∀ i, ∀ n ∈ marks i, Literal (sectionOpener n.toList) ∧ Literal (sectionCloser n.toList))
    (f : Forest) (raw hidden : Bool) (index : Nat) :
    (f.outline marks raw hidden index).print = (f.wrapAll marks index).print raw hidden := by
  induction f generalizing raw hidden index with
  | nil => rfl
  | text s rest ih => simp [outline, wrapAll, print, ih]
  | comment s rest ih => simp [outline, wrapAll, print, ih]
  | doctype n rest ih => simp [outline, wrapAll, print, ih]
  | element tag attributes children rest ihc ihr =>
    refine (nested_print (hlit index) ?_ _ (ihr raw hidden _).symm).symm
    intro f
    simp [Element.followedBy, print_element, ihc, Outline.print]

theorem outline_shown (visible : List Char → Bool) (f : Forest) (raw hidden : Bool) (index : Nat) :
    (f.outline marks raw hidden index).shown visible =
      (f.pruneFrom (fun i => !(marks i).all fun n => visible n.toList) index).print raw hidden := by
  induction f generalizing raw hidden index with
  | nil => rfl
  | text s rest ih => simp [outline, pruneFrom, print, ih]
  | comment s rest ih => simp [outline, pruneFrom, print, ih]
  | doctype n rest ih => simp [outline, pruneFrom, print, ih]
  | element tag attributes children rest ihc ihr =>
    cases h : (marks index).all fun n => visible n.toList with
    | false => simp [outline, pruneFrom, h, ihr]
    | true => simp [outline, pruneFrom, h, ihc, ihr, print_element, Outline.shown]

theorem exists_mark_of_mem_names {f : Forest} {raw hidden : Bool} {index : Nat} {name : List Char}
    (h : name ∈ (f.outline marks raw hidden index).names) :
    ∃ j, index ≤ j ∧ j < index + f.count ∧ ∃ n ∈ marks j, n.toList = name := by
  induction f generalizing raw hidden index with
  | nil => simp [outline, Outline.names] at h
  | text s rest ih => exact ih (by simpa [outline] using h)
  | comment s rest ih => exact ih (by simpa [outline] using h)
  | doctype n rest ih => exact ih (by simpa [outline] using h)
  | element tag attributes children rest ihc ihr =>
    simp only [outline, nestedOutline_names, Outline.ofChars_names, Outline.append_names,
      Outline.names, List.append_nil, List.mem_append] at h
    rcases h with h | h | h
    · exact ⟨index, le_refl _, by simp only [count]; omega, List.mem_map.mp h⟩
    · obtain ⟨j, hle, hlt, hm⟩ := ihc h
      exact ⟨j, by omega, by simp only [count]; omega, hm⟩
    · obtain ⟨j, hle, hlt, hm⟩ := ihr h
      exact ⟨j, by omega, by simp only [count]; omega, hm⟩

/-- If no two places share a name, sections of one name do not stand in each other. -/
theorem outline_scoped (hname : ∀ i, ∀ n ∈ marks i, IsName n.toList)
    (hnodup : ∀ i, (marks i).Nodup) (hplace : ∀ i j n, n ∈ marks i → n ∈ marks j → i = j)
    (f : Forest) (raw hidden : Bool) (index : Nat) :
    (f.outline marks raw hidden index).Scoped := by
  induction f generalizing raw hidden index with
  | nil => trivial
  | text s rest ih => simpa [outline] using ih raw hidden index
  | comment s rest ih => simpa [outline] using ih raw hidden index
  | doctype n rest ih => simpa [outline] using ih raw hidden index
  | element tag attributes children rest ihc ihr =>
    refine nestedOutline_scoped (hname index) (hnodup index) ?_ ?_ (ihr _ _ _)
    · intro n hn hm
      simp only [Outline.ofChars_names, Outline.append_names, Outline.names, List.append_nil] at hm
      obtain ⟨j, hle, -, m, hmark, he⟩ := exists_mark_of_mem_names hm
      have hij := hplace index j n hn (String.toList_inj.mp he ▸ hmark)
      omega
    · simpa [Outline.Scoped] using ihc _ _ _

end Forest

end EmailTemplate.Html
