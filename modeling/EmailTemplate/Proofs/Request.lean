import EmailTemplate.Proofs.Adaptation.Stages
import EmailTemplate.Proofs.Html.Document
import EmailTemplate.Request

/-! A template is never an empty text: a document has an element, which every edit leaves in its place. So
the requests about the template of a message are refused for its size alone. -/

namespace EmailTemplate

open Html Template

/-! ### The element outlasts the edits -/

namespace Html.Forest

theorem roots_append (f g : Forest) : (f.append g).roots = f.roots ++ g.roots := by
  induction f with
  | nil => rfl
  | text s rest ih => exact ih
  | comment s rest ih => exact ih
  | doctype name rest ih => exact ih
  | element tag attributes children rest _ ih => exact congrArg (_ :: ·) ih

theorem roots_followedBy (e : Element) (rest : Forest) : (e.followedBy rest).roots ≠ [] :=
  List.cons_ne_nil _ _

variable {f : Forest} (hf : f.roots ≠ [])
include hf

theorem roots_editAt {edit : Element → Forest → Forest} (hedit : ∀ e rest, (edit e rest).roots ≠ [])
    (i : Nat) : (f.editAt edit i).roots ≠ [] := by
  induction f generalizing i with
  | nil => exact hf
  | text s rest ih => exact ih hf i
  | comment s rest ih => exact ih hf i
  | doctype name rest ih => exact ih hf i
  | element tag attributes children rest _ _ =>
    cases i with
    | zero => exact hedit _ rest
    | succ i =>
      rw [editAt]
      split
      · exact List.cons_ne_nil _ _
      · exact List.cons_ne_nil _ _

theorem roots_updateAt (i : Nat) (change : Element → Element) : (f.updateAt i change).roots ≠ [] :=
  roots_editAt hf (fun _ _ => roots_followedBy _ _) i

theorem roots_wrap (i : Nat) (name : String) : (f.wrap i name).roots ≠ [] := by
  refine roots_editAt (roots_editAt hf (fun e rest => ?_) i) (fun _ _ => roots_followedBy _ _) i
  rw [roots_append]
  exact List.append_ne_nil_of_right_ne_nil _ (roots_followedBy e rest)

theorem roots_replaceCta (c : Cta) : (f.replaceCta c).roots ≠ [] := by
  induction f with
  | nil => exact hf
  | text s rest ih => exact ih hf
  | comment s rest ih => exact ih hf
  | doctype name rest ih => exact ih hf
  | element tag attributes children rest _ _ =>
    rw [replaceCta]
    split
    · exact List.cons_ne_nil _ _
    · exact List.cons_ne_nil _ _

theorem roots_stripComments : f.stripComments.roots ≠ [] := by
  induction f with
  | nil => exact hf
  | text s rest ih => exact ih hf
  | comment s rest ih => exact ih hf
  | doctype name rest ih => exact ih hf
  | element tag attributes children rest _ _ => exact List.cons_ne_nil _ _

/-- A document with an element has some markup. -/
theorem toHtml_ne_empty : f.toHtml.isEmpty = false := by
  have hprint : f.print false false ≠ [] := by
    induction f with
    | nil => exact absurd rfl hf
    | text s rest ih => exact List.append_ne_nil_of_right_ne_nil _ (ih hf)
    | comment s rest ih => exact List.append_ne_nil_of_right_ne_nil _ (ih hf)
    | doctype name rest ih => exact List.append_ne_nil_of_right_ne_nil _ (ih hf)
    | element tag attributes children rest _ _ => exact List.cons_ne_nil _ _
  simpa [toHtml] using hprint

end Html.Forest

theorem Edit.roots {words : String → Prop} {f g : Forest} (h : Edit words f g)
    (hf : f.roots ≠ []) : g.roots ≠ [] := by
  cases h with
  | content => exact Forest.roots_updateAt hf _ _
  | line => exact Forest.roots_updateAt hf _ _
  | link => exact Forest.roots_replaceCta hf _
  | block => exact Forest.roots_wrap hf _ _
  | contact => exact Forest.roots_updateAt hf _ _
  | comments => exact Forest.roots_stripComments hf

theorem Edits.roots {words : String → Prop} {f g : Forest} (h : Edits words f g)
    (hf : f.roots ≠ []) : g.roots ≠ [] := by
  induction h with
  | refl => exact hf
  | tail _ hedit ih => exact hedit.roots ih

theorem adapt_html_ne_empty (o : AdaptOptions) (html : String) : (adapt o html).html.isEmpty = false :=
  Forest.toHtml_ne_empty ((Stage.grows_runAll o Stage.all (.start html)).edits.roots (roots_parse html))

/-! ### Requests about a template -/

theorem require_eq_ok {text : String} (htext : text.isEmpty = false) {limits : Limits}
    (hfits : text.utf8ByteSize ≤ limits.maxInputBytes) (name : String) :
    require name (some text) limits = .ok text := by
  simp only [require, Option.getD_some, htext, checkSize, Nat.not_lt.mpr hfits, if_false]
  rfl

theorem require_eq_error {text : String} (htext : text.isEmpty = false) {limits : Limits}
    (hover : limits.maxInputBytes < text.utf8ByteSize) (name : String) :
    require name (some text) limits = .error (.inputTooLarge text.utf8ByteSize limits.maxInputBytes) := by
  simp only [require, Option.getD_some, htext, checkSize, hover, if_true]
  rfl

theorem AdaptRequest.exists_of_run {r : AdaptRequest} {limits : Limits} {t : AdaptedTemplate}
    (h : r.run limits = .ok t) : ∃ o html, t = adapt o html := by
  rw [run] at h
  cases hhtml : require "html" r.html limits with
  | error e =>
    rw [hhtml] at h
    cases h
  | ok html =>
    rw [hhtml] at h
    cases hfault : (r.options.getD .standard).fault? with
    | some fault =>
      simp only [bind, Except.bind, hfault] at h
      cases h
    | none =>
      simp only [bind, Except.bind, hfault] at h
      exact ⟨_, html, (Except.ok.inj h).symm⟩

/-- A template that came of a request can be rendered with any data, read for its placeholders and
checked, exactly when it is within the limit that the message was under. A larger one is refused with its
size and the limit. -/
theorem AdaptRequest.template_answers {r : AdaptRequest} {limits : Limits} {t : AdaptedTemplate}
    (h : r.run limits = .ok t) :
    (t.html.utf8ByteSize ≤ limits.maxInputBytes →
      (∀ data, (⟨some t.html, data⟩ : RenderRequest).run limits = .ok (Template.render t.html data)) ∧
      (⟨some t.html⟩ : TemplateRequest).extract limits = .ok (Template.extract t.html) ∧
      (⟨some t.html⟩ : TemplateRequest).validate limits = .ok (Template.validate t.html)) ∧
    (limits.maxInputBytes < t.html.utf8ByteSize →
      (∀ data, (⟨some t.html, data⟩ : RenderRequest).run limits =
        .error (.inputTooLarge t.html.utf8ByteSize limits.maxInputBytes)) ∧
      (⟨some t.html⟩ : TemplateRequest).extract limits =
        .error (.inputTooLarge t.html.utf8ByteSize limits.maxInputBytes) ∧
      (⟨some t.html⟩ : TemplateRequest).validate limits =
        .error (.inputTooLarge t.html.utf8ByteSize limits.maxInputBytes)) := by
  obtain ⟨o, html, rfl⟩ := exists_of_run h
  have htext := adapt_html_ne_empty o html
  constructor
  · intro hfits
    have hrequire := require_eq_ok htext hfits "template"
    refine ⟨fun data => ?_, ?_, ?_⟩
    · rw [RenderRequest.run, hrequire]
      rfl
    · rw [TemplateRequest.extract, hrequire]
      rfl
    · rw [TemplateRequest.validate, hrequire]
      rfl
  · intro hover
    have hrequire := require_eq_error htext hover "template"
    refine ⟨fun data => ?_, ?_, ?_⟩
    · rw [RenderRequest.run, hrequire]
      rfl
    · rw [TemplateRequest.extract, hrequire]
      rfl
    · rw [TemplateRequest.validate, hrequire]
      rfl

/-- The template of a message of one letter has forty bytes. -/
theorem AdaptRequest.template_answers_letter :
    ∃ t : AdaptedTemplate, t.html.utf8ByteSize = 40 ∧
      ((⟨some "a", some ⟨[], .auto, false, false⟩⟩ : AdaptRequest).run ⟨40⟩ = .ok t ∧
        (⟨some t.html, .object []⟩ : RenderRequest).run ⟨40⟩ =
          .ok (Template.render t.html (.object []))) ∧
      (⟨some "a", some ⟨[], .auto, false, false⟩⟩ : AdaptRequest).run ⟨39⟩ = .ok t ∧
        (⟨some t.html⟩ : TemplateRequest).extract ⟨39⟩ = .error (.inputTooLarge 40 39) := by
  have hsize : (adapt ⟨[], .auto, false, false⟩ "a").html.utf8ByteSize = 40 := by decide +kernel
  have hwide : (⟨some "a", some ⟨[], .auto, false, false⟩⟩ : AdaptRequest).run ⟨40⟩ =
      .ok (adapt ⟨[], .auto, false, false⟩ "a") := by decide +kernel
  have hnarrow : (⟨some "a", some ⟨[], .auto, false, false⟩⟩ : AdaptRequest).run ⟨39⟩ =
      .ok (adapt ⟨[], .auto, false, false⟩ "a") := by decide +kernel
  have hrender := ((template_answers hwide).1 hsize.le).1 (.object [])
  have hextract := ((template_answers hnarrow).2 (hsize ▸ Nat.lt_succ_self 39)).2.1
  rw [hsize] at hextract
  exact ⟨_, hsize, ⟨hwide, hrender⟩, hnarrow, hextract⟩

/-- A message may be within the limit and its template be over it. -/
theorem AdaptRequest.not_template_answers :
    ¬ ∀ (r : AdaptRequest) (limits : Limits) (t : AdaptedTemplate), r.run limits = .ok t →
      (∀ data, ∃ rendered, (⟨some t.html, data⟩ : RenderRequest).run limits = .ok rendered) ∧
      (∃ names, (⟨some t.html⟩ : TemplateRequest).extract limits = .ok names) ∧
      ∃ report, (⟨some t.html⟩ : TemplateRequest).validate limits = .ok report := by
  intro h
  have hrun : (⟨some "a", some ⟨[], .auto, false, false⟩⟩ : AdaptRequest).run ⟨10⟩ =
      .ok (adapt ⟨[], .auto, false, false⟩ "a") := by decide +kernel
  have hhtml : (adapt ⟨[], .auto, false, false⟩ "a").html = "<html><head></head><body>a</body></html>" := by
    decide +kernel
  obtain ⟨-, ⟨names, hextract⟩, -⟩ := h _ _ _ hrun
  rw [hhtml] at hextract
  cases hextract

end EmailTemplate
