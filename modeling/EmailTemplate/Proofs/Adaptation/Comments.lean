import EmailTemplate.Proofs.Adaptation.Placeholders

/-! Comments. What is told about a message does not depend on whether they are kept, and where they are
not kept they are all that is missing. -/

namespace EmailTemplate

open Html Text

namespace Html

/-- The second row is the first one without its comments, at whatever depth they stand. -/
inductive Uncommented : Forest → Forest → Prop
  | nil : Uncommented .nil .nil
  | text (s : String) {rest rest' : Forest} : Uncommented rest rest' →
    Uncommented (.text s rest) (.text s rest')
  | comment (s : String) {rest rest' : Forest} : Uncommented rest rest' →
    Uncommented (.comment s rest) rest'
  | doctype (name : String) {rest rest' : Forest} : Uncommented rest rest' →
    Uncommented (.doctype name rest) (.doctype name rest')
  | element (tag : Tag) (attributes : List Attribute) {children children' rest rest' : Forest} :
    Uncommented children children' → Uncommented rest rest' →
    Uncommented (.element tag attributes children rest) (.element tag attributes children' rest')

theorem uncommented_stripComments (f : Forest) : Uncommented f f.stripComments := by
  induction f with
  | nil => exact .nil
  | text s rest ih => exact .text s ih
  | comment s rest ih => exact .comment s ih
  | doctype name rest ih => exact .doctype name ih
  | element tag attributes children rest ihc ihr => exact .element tag attributes ihc ihr

namespace Uncommented

variable {f f' : Forest}

theorem textContent (h : Uncommented f f') : f'.textContent = f.textContent := by
  induction h with
  | nil => rfl
  | text s _ ih => rw [Forest.textContent, Forest.textContent, ih]
  | comment s _ ih => exact ih
  | doctype name _ ih => exact ih
  | element tag attributes _ _ ihc ihr => rw [Forest.textContent, Forest.textContent, ihc, ihr]

/-- The elements stay in their order, each with its tag, its attributes and the text in it. -/
theorem elements (h : Uncommented f f') : List.Forall₂ (fun e e' : Element =>
    e'.tag = e.tag ∧ e'.attributes = e.attributes ∧ e'.textContent = e.textContent)
    f.elements f'.elements := by
  induction h with
  | nil => exact .nil
  | text s _ ih => exact ih
  | comment s _ ih => exact ih
  | doctype name _ ih => exact ih
  | element tag attributes hchildren _ ihc ihr =>
    exact .cons ⟨rfl, rfl, hchildren.textContent⟩ (List.rel_append ihc ihr)

/-- A test that goes by tag, attributes and text alone holds of some element before if it does
after. -/
theorem any_elements (h : Uncommented f f') {p : Element → Bool}
    (hp : ∀ e e' : Element, e'.tag = e.tag → e'.attributes = e.attributes →
      e'.textContent = e.textContent → p e' = p e) : f'.elements.any p = f.elements.any p := by
  have hany : ∀ {es es' : List Element}, List.Forall₂ (fun e e' : Element =>
      e'.tag = e.tag ∧ e'.attributes = e.attributes ∧ e'.textContent = e.textContent) es es' →
      es'.any p = es.any p := by
    intro es es' hes
    induction hes with
    | nil => rfl
    | cons hsame _ ih => rw [List.any_cons, List.any_cons, ih, hp _ _ hsame.1 hsame.2.1 hsame.2.2]
  exact hany h.elements

/-- A message has its footer with and without comments. -/
theorem hasFooter (h : Uncommented f f') : Landmark.hasFooter f' = Landmark.hasFooter f := by
  have hhits : ∀ e e' : Element, e'.textContent = e.textContent →
      Landmark.footerHits e' = Landmark.footerHits e := by
    intro e e' htext
    rw [Landmark.footerHits, Landmark.footerHits, htext]
  have hmarked : ∀ e e' : Element, e'.tag = e.tag → e'.attributes = e.attributes →
      Landmark.isMarkedFooter e' = Landmark.isMarkedFooter e := by
    intro e e' htag hattributes
    simp only [Landmark.isMarkedFooter, Element.isTag, Element.classContains, Element.attribute?,
      htag, hattributes]
  have hlength : ∀ e e' : Element, e'.textContent = e.textContent →
      e'.trimmedText = e.trimmedText := by
    intro e e' htext
    rw [Element.trimmedText, Element.trimmedText, htext]
  rw [Landmark.hasFooter, Landmark.hasFooter]
  congr 1
  · refine h.any_elements fun e e' htag hattributes htext => ?_
    rw [hmarked e e' htag hattributes, hhits e e' htext]
  · refine h.any_elements fun e e' _ _ htext => ?_
    rw [hlength e e' htext, hhits e e' htext]

end Uncommented

end Html

namespace Stage

/-- The message as it is before comments are looked at. -/
theorem found_comments_congr {o o' : AdaptOptions} (hblocks : o'.detectBlocks = o.detectBlocks)
    (hstrategy : o'.ctaStrategy = o.ctaStrategy)
    (hfallback : o'.preheaderFallback = o.preheaderFallback) (html : String) :
    comments.found o' html = comments.found o html := by
  rw [found_comments, found_comments, found_brand, found_brand, found_blocks, found_blocks,
    found_ctas, found_ctas, found_title, found_title, hblocks, hstrategy, hfallback]

end Stage

/-- Whether comments are kept is seen in the markup alone: placeholders and details are the same, and
the markup without comments is that of the document behind the other one, its comments taken out. -/
theorem adapt_preserveComments (o : AdaptOptions) (html : String) :
    (∀ keep keep' : Bool,
      (adapt { o with preserveComments := keep' } html).placeholders =
          (adapt { o with preserveComments := keep } html).placeholders ∧
        (adapt { o with preserveComments := keep' } html).details =
          (adapt { o with preserveComments := keep } html).details) ∧
      ∃ bare, Uncommented
          (Stage.runAll { o with preserveComments := true } Stage.all (.start html)).document bare ∧
        (adapt { o with preserveComments := true } html).html = (Stage.runAll
          { o with preserveComments := true } Stage.all (.start html)).document.toHtml ∧
        (adapt { o with preserveComments := false } html).html = bare.toHtml := by
  let before := Stage.comments.found o html
  have hrun : ∀ keep, Stage.runAll { o with preserveComments := keep } Stage.all (.start html) =
      before.runComments keep := by
    intro keep
    rw [Stage.runAll_all, Stage.found_comments_congr rfl rfl rfl]
    rfl
  have hbare : Uncommented before.document before.document.stripComments :=
    uncommented_stripComments _
  have hsame : ∀ keep, (before.runComments keep).finish.placeholders = before.finish.placeholders ∧
      (before.runComments keep).finish.details = before.finish.details := by
    intro keep
    cases keep with
    | true => exact ⟨rfl, rfl⟩
    | false =>
      refine ⟨rfl, ?_⟩
      simp only [Adaptation.finish, Adaptation.runComments, Bool.false_eq_true, if_false,
        hbare.hasFooter]
  refine ⟨fun keep keep' => ?_, before.document.stripComments, ?_, rfl, ?_⟩
  · rw [adapt, adapt, hrun, hrun, (hsame keep).1, (hsame keep).2, (hsame keep').1, (hsame keep').2]
    exact ⟨rfl, rfl⟩
  · rw [hrun]
    exact hbare
  · rw [adapt, hrun]
    rfl

end EmailTemplate
