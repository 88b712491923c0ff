import EmailTemplate.Proofs.Adaptation.Lasting
import EmailTemplate.Proofs.Adaptation.Placeholders

/-! A preheader for every message. A message with a body gets one if a hidden line may be put in, and
the token of it stands in the template unless the title is found around it. -/

namespace EmailTemplate

open Html Template Text

namespace Adaptation

/-! ### The preheader stage -/

/-- The title that is found has no token of a preheader in its text. -/
def TitleSparesPreheader (a : Adaptation) : Prop :=
  ∀ v, Landmark.title? a.document = some v →
    ¬ token "preheader".toList <:+: v.element.textContent.toList

theorem body_of_preheader? {doc : Forest} {v : Visit} (h : Landmark.preheader? doc = some v) :
    doc.body?.isSome = true := by
  obtain ⟨body, hbody, -⟩ := Option.bind_eq_some_iff.mp h
  rw [hbody]
  rfl

theorem runPreheader_of_bodyless {a : Adaptation} (hbody : a.document.body?.isSome = false)
    (fallback : Bool) : a.runPreheader fallback = a := by
  have hnone : Landmark.preheader? a.document = none := by
    cases hfound : Landmark.preheader? a.document with
    | none => rfl
    | some v => simp [body_of_preheader? hfound] at hbody
  rw [Option.isSome_eq_false_iff, Option.isNone_iff_eq_none] at hbody
  rw [runPreheader, hnone, hbody]
  cases fallback with
  | false => rfl
  | true => rfl

theorem texts_addHiddenLine_ne_zero {a : Adaptation} {body : Visit}
    (he : a.document.elementAt? body.index = some body.element) :
    (a.addHiddenLine body).document.texts "preheader" ≠ 0 := by
  have hcount := Forest.tally_updateAt_children (m := textsWith (token "preheader".toList)) he
    (hiddenLine.followedBy .nil).append
  have hline : (hiddenLine.followedBy .nil).tally (textsWith (token "preheader".toList)) ≠ 0 := by
    decide +kernel
  rw [Forest.tally_append] at hcount
  rw [addHiddenLine, record_document, Forest.texts, Forest.prepend, hcount]
  omega

theorem record_supportsPreheader (a : Adaptation) (p : Placeholder) :
    (a.record p).supportsPreheader = a.supportsPreheader :=
  same_of_report supportsPreheader (fun _ => rfl) (a.record_report p)

/-- A message with a body has a preheader after the stage, whether it had one or not. -/
theorem preheader_of_body {a : Adaptation} (hbody : a.document.body?.isSome = true) :
    (a.runPreheader true).supportsPreheader = true ∧
      (a.runPreheader true).document.texts "preheader" ≠ 0 := by
  obtain ⟨body, hbody⟩ := Option.isSome_iff_exists.mp hbody
  rw [runPreheader]
  split
  · next v hv =>
    refine ⟨rfl, ?_⟩
    rw [putToken, record_document]
    exact texts_setText_self (Landmark.elementAt?_of_preheader? hv).1 _
  · rw [if_pos rfl, hbody, Option.elim_some]
    refine ⟨?_, texts_addHiddenLine_ne_zero (Landmark.elementAt?_of_body? hbody).1⟩
    rw [addHiddenLine, record_supportsPreheader]

/-! ### The other stages -/

theorem texts_le_runTitle {a : Adaptation} (h : a.TitleSparesPreheader) :
    a.document.texts "preheader" ≤ a.runTitle.document.texts "preheader" := by
  rw [runTitle]
  split
  · next v hv =>
    rw [putToken, record_document]
    exact texts_le_setText (Landmark.elementAt?_of_title? hv).1 (h v hv) _
  · exact Nat.le_refl _

end Adaptation

namespace Stage

open Adaptation

/-- Only the stage that looks for a preheader tells of one. -/
theorem supportsPreheader_run {s : Stage} (hs : s ≠ preheader) (o : AdaptOptions) (a : Adaptation) :
    (s.run o a).supportsPreheader = a.supportsPreheader := by
  cases s with
  | preheader => exact absurd rfl hs
  | title =>
    rw [run, runTitle]
    split
    · exact record_supportsPreheader _ _
    · rfl
  | ctas =>
    refine foldl_same supportsPreheader (fun b c => ?_) a _
    rw [addCta, record_supportsPreheader, record_supportsPreheader]
  | blocks =>
    refine foldl_same supportsPreheader (fun b block => ?_) a _
    rw [addBlock, record_supportsPreheader]
  | brand => exact same_of_report supportsPreheader (fun _ => rfl) a.runBrand_report
  | comments => exact same_of_report supportsPreheader (fun _ => rfl) (a.runComments_report _)

theorem supportsPreheader_runAll {stages : List Stage} (hstages : preheader ∉ stages)
    (o : AdaptOptions) (a : Adaptation) :
    (runAll o stages a).supportsPreheader = a.supportsPreheader := by
  induction stages generalizing a with
  | nil => rfl
  | cons s stages ih =>
    rw [List.mem_cons, not_or] at hstages
    have hrest := ih hstages.2 (s.run o a)
    rwa [supportsPreheader_run (Ne.symm hstages.1)] at hrest

end Stage

/-! ### The finished template -/

/-- Whether the token of a preheader stands in a template. -/
def AdaptedTemplate.HasPreheader (t : AdaptedTemplate) : Prop :=
  token "preheader".toList <:+: t.html.toList

instance (t : AdaptedTemplate) : Decidable t.HasPreheader :=
  inferInstanceAs (Decidable (token "preheader".toList <:+: t.html.toList))

theorem Adaptation.hasPreheader_finish (a : Adaptation) :
    a.finish.HasPreheader ↔ token "preheader".toList <:+: a.document.print false false := by
  have hmarkup : a.finish.html.toList = a.document.print false false := String.toList_ofList
  rw [AdaptedTemplate.HasPreheader, hmarkup]

section Adapted

variable {o : AdaptOptions} {html : String}

theorem supportsPreheader_adapt (hfallback : o.preheaderFallback = true) :
    (adapt o html).details.supportsPreheader = (parse html).body?.isSome := by
  have hstages : Stage.preheader ∉ Stage.all.dropWhile (· != .title) := by decide
  have hlater := Stage.supportsPreheader_runAll hstages o (Stage.title.found o html)
  rw [Stage.runAll_found, Stage.found_title, hfallback] at hlater
  have hstart : ((Adaptation.start html).runPreheader true).supportsPreheader =
      (Adaptation.start html).document.body?.isSome := by
    cases hbody : (Adaptation.start html).document.body?.isSome with
    | false => rw [Adaptation.runPreheader_of_bodyless hbody, Adaptation.start]
    | true => exact (Adaptation.preheader_of_body hbody).1
  exact hlater.trans hstart

/-- From the stage of the title on nothing but the title takes away the token. -/
theorem texts_runAll_ne_zero (hfallback : o.preheaderFallback = true)
    (hbody : (Adaptation.start html).document.body?.isSome = true)
    (hspares : (Stage.title.found o html).TitleSparesPreheader) :
    (Stage.runAll o Stage.all (.start html)).document.texts "preheader" ≠ 0 := by
  have hfirst : (Stage.title.found o html).document.texts "preheader" ≠ 0 := by
    rw [Stage.found_title, hfallback]
    exact (Adaptation.preheader_of_body hbody).2
  have htitle := Adaptation.texts_le_runTitle hspares
  have hstages : ∀ s ∈ Stage.all.dropWhile (· != .ctas), s ∈ Stage.later := by decide
  have hlater := texts_le_runAll (w := "preheader") (by decide) hstages o (Stage.ctas.found o html)
  rw [Stage.runAll_found] at hlater
  rw [← Stage.found_ctas] at htitle
  omega

section BraceFree

variable (hfree : (parse html).Follows .braceFree)
include hfree

theorem body_of_places (hends : (Stage.runAll o Stage.all (.start html)).document.places "preheader" ≠ 0) :
    (Adaptation.start html).document.body?.isSome = true := by
  rw [← Bool.not_eq_false]
  intro hbody
  refine hends (Stage.places_runAll_eq_zero (s := .preheader) (t := .title) (by decide) (by decide) ?_)
  rw [Stage.found_title, Adaptation.runPreheader_of_bodyless hbody]
  exact placesOf_token_eq_zero _ hfree

/-- In a message without braces the token stands once, so it is lost with the text around it. -/
theorem titleSparesPreheader_of_places
    (hends : (Stage.runAll o Stage.all (.start html)).document.places "preheader" ≠ 0) :
    (Stage.title.found o html).TitleSparesPreheader := by
  intro v hv hi
  have hle : (Stage.title.found o html).document.places "preheader" ≤ 1 := by
    rw [Stage.found_title]
    exact Adaptation.places_preheader_le hfree o.preheaderFallback "preheader"
  have htidy : (Stage.title.found o html).document.Follows .tidy :=
    Stage.follows_runAll open_tidy o _ hfree.tidy
  have hlost := Adaptation.places_runTitle_eq_zero htidy hv (by decide) (by decide) hle hi
  rw [← Stage.found_ctas] at hlost
  exact hends (Stage.places_runAll_eq_zero (s := .preheader) (t := .ctas) (by decide) (by decide) hlost)

end BraceFree

theorem hasPreheader_of_texts
    (h : (Stage.runAll o Stage.all (.start html)).document.texts "preheader" ≠ 0) :
    (adapt o html).HasPreheader := by
  have hvoid := Stage.follows_runAll (open_voidsEmpty Inner) o Stage.all
    (parse_voidsEmpty html).follows
  have hplain : Plain (token "preheader".toList) := Inner.plain (by decide)
  exact (Adaptation.hasPreheader_finish _).mpr (infix_print hplain hvoid (Forest.places_ne_zero h) false)

theorem places_of_hasPreheader (hfree : (parse html).Follows .braceFree)
    (h : (adapt o html).HasPreheader) :
    (Stage.runAll o Stage.all (.start html)).document.places "preheader" ≠ 0 := by
  have htidy := Stage.follows_runAll open_tidy o Stage.all hfree.tidy
  have hinner : Inner "preheader" := by decide
  have hprint := (Adaptation.hasPreheader_finish _).mp h
  exact of_token_infix_print hinner.braceFree hinner.ampersand_not_mem htidy hprint

end Adapted

/-- With the fallback every message that has a body gets a preheader, and its token stands in the
template if the title that is found does not have it inside. In a message without braces the token
stands only then. -/
theorem preheader_adapt (o : AdaptOptions) (hfallback : o.preheaderFallback = true) (html : String) :
    (adapt o html).details.supportsPreheader = (parse html).body?.isSome ∧
      ((parse html).body?.isSome = true → (Stage.title.found o html).TitleSparesPreheader →
        (adapt o html).HasPreheader) ∧
      (BraceFree (parse html).toHtml.toList → ((adapt o html).HasPreheader ↔
        (parse html).body?.isSome = true ∧ (Stage.title.found o html).TitleSparesPreheader)) := by
  have hstart : (Adaptation.start html).document = parse html := rfl
  rw [← hstart]
  have hhas : (Adaptation.start html).document.body?.isSome = true →
      (Stage.title.found o html).TitleSparesPreheader → (adapt o html).HasPreheader :=
    fun hbody hspares => hasPreheader_of_texts (texts_runAll_ne_zero hfallback hbody hspares)
  refine ⟨supportsPreheader_adapt hfallback, hhas, fun hmarkup => ⟨fun h => ?_, fun h => hhas h.1 h.2⟩⟩
  rw [hstart, Forest.toHtml, String.toList_ofList] at hmarkup
  have hfree := follows_braceFree (parse_voidsEmpty html).follows hmarkup
  have hends := places_of_hasPreheader hfree h
  exact ⟨body_of_places hfree hends, titleSparesPreheader_of_places hfree hends⟩

/-- A preheader and a title beside each other. -/
theorem preheader_adapt_title :
    (⟨[], .auto, true, false⟩ : AdaptOptions).preheaderFallback = true ∧
      (parse "<p style=display:none>Preview of it<h1>Hi").body?.isSome = true ∧
      (Stage.title.found ⟨[], .auto, true, false⟩
        "<p style=display:none>Preview of it<h1>Hi").TitleSparesPreheader :=
  ⟨rfl, ((preheader_adapt _ rfl _).2.2 (by decide +kernel)).mp (by decide +kernel)⟩

/-- A preheader that is classed as a title, and a message with frames in place of a body. -/
theorem not_preheader_adapt :
    ¬ (adapt ⟨[], .auto, true, false⟩
      "<p class=title style=display:none>Preview of it").HasPreheader ∧
    (adapt ⟨[], .auto, true, false⟩ "<frameset>").details.supportsPreheader = false := by
  decide +kernel

end EmailTemplate
