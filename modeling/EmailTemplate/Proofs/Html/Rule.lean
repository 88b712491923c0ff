import EmailTemplate.Adaptation.Anchor
import EmailTemplate.Proofs.Html.Edit

/-! Rules about the nodes of a document, and the edits that they survive. -/

namespace EmailTemplate.Html

/-- What is asked of every text, of every comment and document type, of every tag, and of the tags of
the elements that are not empty. -/
structure Rule where
  text : String → Prop
  note : String → Prop
  tag : Tag → List Attribute → Prop
  filled : Tag → Prop

def Forest.Follows (r : Rule) : Forest → Prop
  | nil => True
  | text s rest => r.text s ∧ rest.Follows r
  | comment s rest | doctype s rest => r.note s ∧ rest.Follows r
  | element tag attributes children rest =>
    r.tag tag attributes ∧ (children ≠ nil → r.filled tag) ∧ children.Follows r ∧ rest.Follows r

def Element.Follows (r : Rule) (e : Element) : Prop :=
  r.tag e.tag e.attributes ∧ (e.children ≠ .nil → r.filled e.tag) ∧ e.children.Follows r

variable {r : Rule}

theorem follows_followedBy {e : Element} {rest : Forest} :
    (e.followedBy rest).Follows r ↔ e.Follows r ∧ rest.Follows r := by
  simp only [Element.followedBy, Forest.Follows, Element.Follows, and_assoc]

namespace Forest

@[simp]
theorem follows_append {f g : Forest} : (f.append g).Follows r ↔ f.Follows r ∧ g.Follows r := by
  induction f with
  | nil => simp [append, Follows]
  | text s rest ih => simp [append, Follows, ih, and_assoc]
  | comment s rest ih => simp [append, Follows, ih, and_assoc]
  | doctype name rest ih => simp [append, Follows, ih, and_assoc]
  | element tag attributes children rest _ ih => simp [append, Follows, ih, and_assoc]

theorem Follows.elementAt? {f : Forest} (h : f.Follows r) {i : Nat} {e : Element}
    (he : f.elementAt? i = some e) : e.Follows r := by
  induction f, i, he using elementAt?_induction with
  | text s rest i _ ih => exact ih h.2
  | comment s rest i _ ih => exact ih h.2
  | doctype name rest i _ ih => exact ih h.2
  | here rest => exact (follows_followedBy.mp h).1
  | inner tag attributes children rest i _ _ ih => exact ih h.2.2.1
  | later tag attributes children rest i _ ih => exact ih h.2.2.2

theorem Follows.editAt {f : Forest} (h : f.Follows r) {i : Nat} {edit : Element → Forest → Forest}
    (hedit : ∀ e rest, f.elementAt? i = some e → e.Follows r → rest.Follows r →
      (edit e rest).Follows r) : (f.editAt edit i).Follows r := by
  induction f generalizing i with
  | nil => trivial
  | text s rest ih => exact ⟨h.1, ih h.2 hedit⟩
  | comment s rest ih => exact ⟨h.1, ih h.2 hedit⟩
  | doctype name rest ih => exact ⟨h.1, ih h.2 hedit⟩
  | element tag attributes children rest ihc ihr =>
    obtain ⟨htag, hfilled, hc, hr⟩ := h
    cases i with
    | zero => exact hedit _ _ rfl ⟨htag, hfilled, hc⟩ hr
    | succ i =>
      rw [Forest.editAt]
      split
      · next hi =>
        have hchildren : (children.editAt edit i).Follows r :=
          ihc hc fun e rest he => hedit e rest (by rw [Forest.elementAt?, if_pos hi, he])
        refine ⟨htag, fun hne => hfilled fun hnil => hne ?_, hchildren, hr⟩
        rw [hnil, Forest.editAt]
      · next hi =>
        have hrest : (rest.editAt edit (i - children.count)).Follows r :=
          ihr hr fun e rest he => hedit e rest (by rw [Forest.elementAt?, if_neg hi, he])
        exact ⟨htag, hfilled, hc, hrest⟩

theorem Follows.updateAt {f : Forest} (h : f.Follows r) {i : Nat} {change : Element → Element}
    (hchange : ∀ e, f.elementAt? i = some e → e.Follows r → (change e).Follows r) :
    (f.updateAt i change).Follows r :=
  h.editAt fun e _ he hf hr => follows_followedBy.mpr ⟨hchange e he hf, hr⟩

/-- A text may take the place of what is in an element that has something in it. -/
theorem Follows.setText {f : Forest} (h : f.Follows r) {i : Nat} {e : Element}
    (he : f.elementAt? i = some e) (hne : e.children ≠ nil) {s : String} (hs : r.text s) :
    (f.setText i s).Follows r := by
  refine h.updateAt fun e' he' hf => ?_
  obtain rfl : e = e' := Option.some.inj (he.symm.trans he')
  exact ⟨hf.1, fun _ => hf.2.1 hne, hs, trivial⟩

theorem Follows.wrap {f : Forest} (h : f.Follows r) (i : Nat) {name : String}
    (hopener : r.text (String.ofList (Template.sectionOpener name.toList)))
    (hcloser : r.text (String.ofList (Template.sectionCloser name.toList))) :
    (f.wrap i name).Follows r := by
  rw [wrap_eq_editAt]
  exact h.editAt fun e rest _ hf hr => ⟨hopener, follows_followedBy.mpr ⟨hf, hcloser, hr⟩⟩

theorem Follows.stripComments {f : Forest} (h : f.Follows r) : f.stripComments.Follows r := by
  induction f with
  | nil => trivial
  | text s rest ih => exact ⟨h.1, ih h.2⟩
  | comment s rest ih => exact ih h.2
  | doctype name rest ih => exact ⟨h.1, ih h.2⟩
  | element tag attributes children rest ihc ihr =>
    obtain ⟨htag, hfilled, hc, hr⟩ := h
    refine ⟨htag, fun hne => hfilled fun hnil => hne ?_, ihc hc, ihr hr⟩
    rw [hnil, Forest.stripComments]

theorem Follows.replaceLiteral {f : Forest} (h : f.Follows r) {find put : List Char}
    (htext : ∀ s, r.text s → r.text (String.ofList (Text.replaceAll find put s.toList)))
    (htag : ∀ tag attributes, r.tag tag attributes → r.tag tag (replaceInValues find put attributes)) :
    (f.replaceLiteral find put).Follows r := by
  induction f with
  | nil => trivial
  | text s rest ih => exact ⟨htext s h.1, ih h.2⟩
  | comment s rest ih => exact ⟨h.1, ih h.2⟩
  | doctype name rest ih => exact ⟨h.1, ih h.2⟩
  | element tag attributes children rest ihc ihr =>
    obtain ⟨ht, hfilled, hc, hr⟩ := h
    refine ⟨htag tag attributes ht, fun hne => hfilled fun hnil => hne ?_, ihc hc, ihr hr⟩
    rw [hnil, Forest.replaceLiteral]

/-- The text of a link takes the place of what is in it, so links must be able to hold something. -/
theorem Follows.replaceCta {f : Forest} (h : f.Follows r) {c : Cta}
    (hlink : ∀ e : Element, e.isTag "a" = true → r.filled e.tag)
    (htext : r.text (Template.nameToken c.textPlaceholder))
    (htag : ∀ tag attributes, r.tag tag attributes →
      r.tag tag (setAttribute "href" (Template.nameToken c.urlPlaceholder) attributes)) :
    (f.replaceCta c).Follows r := by
  induction f with
  | nil => trivial
  | text s rest ih => exact ⟨h.1, ih h.2⟩
  | comment s rest ih => exact ⟨h.1, ih h.2⟩
  | doctype name rest ih => exact ⟨h.1, ih h.2⟩
  | element tag attributes children rest ihc ihr =>
    obtain ⟨ht, hfilled, hc, hr⟩ := h
    rw [Forest.replaceCta]
    split
    · next hclaims =>
      have hlink := hlink _ (by simpa using (Bool.and_eq_true_iff.mp (Bool.and_eq_true_iff.mp hclaims).1).1)
      exact ⟨htag tag attributes ht, fun _ => hlink, ⟨htext, trivial⟩, ihr hr⟩
    · refine ⟨ht, fun hne => hfilled fun hnil => hne ?_, ihc hc, ihr hr⟩
      rw [hnil, Forest.replaceCta]

end Forest

end EmailTemplate.Html
