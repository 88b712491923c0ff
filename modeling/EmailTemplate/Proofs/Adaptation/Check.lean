import EmailTemplate.Proofs.Adaptation.Lasting
import EmailTemplate.Proofs.Adaptation.RoundTrip
import EmailTemplate.Template.Check

/-! What a check finds in a template: the title that was put in, and the first call to action. A later
stage may take away other tokens, but none of these. -/

namespace EmailTemplate

open Html Template Text

/-- The two warnings begin with different letters. -/
theorem Template.missingMessage_ne (name : String) : missingMessage name ≠ noCtaMessage := by
  intro heq
  have hlists := (String.toList_append (s := "Missing recommended placeholder: ") (t := name)).symm.trans
    (congrArg String.toList heq)
  have hmissing : "Missing recommended placeholder: ".toList.head? = some 'M' := by decide +kernel
  have hcta : noCtaMessage.toList.head? = some 'N' := by decide +kernel
  rw [← hlists, List.head?_append, hmissing] at hcta
  simp at hcta

/-! ### The links of selected calls to action -/

theorem Landmark.claims_of_candidate? {v : Visit} {found : Candidate} (h : candidate? v = some found)
    {c : Cta} (htext : c.text = found.text) (hhref : c.href = found.href) :
    c.claims v.element = true := by
  obtain ⟨hlink, hparts, -, -⟩ := (candidate?_eq_some_iff.mp h).1
  simp [Cta.claims, hlink, hparts.address, ← hparts.trimmed, htext, hhref]

theorem CtaStrategy.any_claims_of_mem_select {s : CtaStrategy} {doc : Forest} {c : Cta}
    (h : c ∈ s.select (Landmark.ctas doc)) : doc.elements.any c.claims = true := by
  obtain ⟨d, hd, hc⟩ := of_mem_select h
  obtain ⟨i, hi, rfl⟩ := List.mem_mapIdx.mp hd
  obtain ⟨v, hv, hfound⟩ := List.mem_filterMap.mp
    ((Landmark.firstBy_sublist _ _).subset (List.getElem_mem hi))
  have hmem := Forest.mem_elements_of_elementAt? (Forest.elementAt?_of_mem_visits hv)
  refine List.any_eq_true.mpr ⟨v.element, hmem, Landmark.claims_of_candidate? hfound ?_ ?_⟩
  · rcases hc with rfl | rfl | rfl <;> rfl
  · rcases hc with rfl | rfl | rfl <;> rfl

theorem Landmark.head_ctas {doc : Forest} {c : Cta} {rest : List Cta} (h : ctas doc = c :: rest) :
    c.textPlaceholder = "cta_1_text" := by
  obtain ⟨candidate, -, -, rfl, -⟩ := List.mapIdx_eq_cons_iff.mp h
  rfl

/-- The first call to action that is selected. -/
theorem CtaStrategy.head_select {s : CtaStrategy} {doc : Forest} {c : Cta} {rest : List Cta}
    (h : s.select (Landmark.ctas doc) = c :: rest) :
    c.textPlaceholder = "cta_1_text" ∨ c.textPlaceholder = "cta_top_text" := by
  cases s with
  | all => exact .inl (Landmark.head_ctas h)
  | auto =>
    obtain ⟨more, hmore⟩ : ∃ more, Landmark.ctas doc = c :: more := by
      cases hctas : Landmark.ctas doc with
      | nil => simp [select, hctas] at h
      | cons first more =>
        simp only [select, hctas, List.take_succ_cons, List.cons.injEq] at h
        exact ⟨more, by rw [h.1]⟩
    exact .inl (Landmark.head_ctas hmore)
  | topBottom =>
    rcases hctas : Landmark.ctas doc with _ | ⟨only, _ | ⟨second, more⟩⟩
    · simp [select, hctas] at h
    · rw [hctas, select] at h
      · exact .inl (Landmark.head_ctas (hctas.trans h))
      · simp
    · simp only [select, hctas, List.cons.injEq] at h
      exact .inr (by rw [← h.1]; rfl)

namespace Adaptation

/-! ### What the stages leave -/

/-- What a stage tells about the title and the calls to action. -/
def told (a : Adaptation) : Bool × List Cta := (a.hasTitle, a.ctas)

theorem record_told (a : Adaptation) (p : Placeholder) : (a.record p).told = a.told :=
  same_of_report told (fun _ => rfl) (a.record_report p)

theorem putToken_told (a : Adaptation) (name : String) (v : Visit) :
    (a.putToken name v).told = a.told := by
  rw [putToken, record_told]
  rfl

theorem addBlock_told (a : Adaptation) (block : Landmark.Block) :
    (a.addBlock block).told = a.told := by
  rw [addBlock, record_told]
  rfl

theorem runPreheader_told (fallback : Bool) (a : Adaptation) :
    (a.runPreheader fallback).told = a.told := by
  rw [runPreheader]
  split
  · exact putToken_told _ _ _
  · cases fallback with
    | false => rfl
    | true =>
      cases a.document.body? with
      | none => rfl
      | some body => exact record_told _ _

theorem runBlocks_told (names : List String) (a : Adaptation) :
    (a.runBlocks names).told = a.told :=
  foldl_same told (fun b block => addBlock_told b block) a _

theorem runBrand_told (a : Adaptation) : a.runBrand.told = a.told :=
  same_of_report told (fun _ => rfl) a.runBrand_report

theorem runComments_told (preserve : Bool) (a : Adaptation) :
    (a.runComments preserve).told = a.told :=
  same_of_report told (fun _ => rfl) (a.runComments_report preserve)

theorem addCta_told (a : Adaptation) (c : Cta) :
    (a.addCta c).told = (a.hasTitle, a.ctas ++ [c]) := by
  rw [addCta, record_told, record_told]
  rfl

theorem foldl_addCta_told (a : Adaptation) (ctas : List Cta) :
    (ctas.foldl addCta a).told = (a.hasTitle, a.ctas ++ ctas) := by
  induction ctas generalizing a with
  | nil => rw [List.append_nil]; rfl
  | cons c ctas ih =>
    obtain ⟨htitle, hctas⟩ := Prod.mk.inj (a.addCta_told c)
    rw [List.foldl_cons, ih, htitle, hctas, List.append_assoc]
    rfl

/-- Words that hold in a document with links keep holding when more links get their tokens. -/
theorem holds_foldl_addCta {ctas : List Cta} (hctas : ∀ c ∈ ctas, c.Tokenless) {w : String}
    {a : Adaptation} (h : a.document.Holds w) : (ctas.foldl addCta a).document.Holds w := by
  induction ctas generalizing a with
  | nil => exact h
  | cons c ctas ih =>
    refine ih (fun d hd => hctas d (List.mem_cons_of_mem c hd)) ?_
    rw [addCta_document]
    exact h.replaceCta (hctas c List.mem_cons_self)

theorem places_runBlocks_ne_zero {a : Adaptation} {w : String} (h : a.document.places w ≠ 0)
    (names : List String) : (a.runBlocks names).document.places w ≠ 0 := by
  have hle := a.tally_le_runBlocks (m := placesOf (token w.toList)) names
  rw [Forest.places] at h ⊢
  omega

/-- A word without a character that every contact detail has keeps its tokens. -/
theorem places_runBrand_ne_zero {a : Adaptation} {w : String}
    (hmark : w.toList.any Contact.isMark = false) (h : a.document.places w ≠ 0) :
    a.runBrand.document.places w ≠ 0 := by
  have hle : a.document.tally (placesOf (token w.toList)) ≤
      a.runBrand.document.tally (placesOf (token w.toList)) := by
    refine a.tally_le_runBrand fun found hfound => ?_
    exact Forest.placesOf_le_replaceLiteral hfound.ne_nil hfound.1 (hfound.not_infix hmark)
  rw [Forest.places] at h ⊢
  omega

theorem places_runComments (preserve : Bool) (a : Adaptation) (w : String) :
    (a.runComments preserve).document.places w = a.document.places w :=
  a.tally_runComments preserve

end Adaptation

/-! ### From the stages to the template -/

section Adapted

variable {o : AdaptOptions} {html : String}

theorem told_found_title : (Stage.title.found o html).told = (false, []) := by
  rw [Stage.found_title, Adaptation.runPreheader_told]
  rfl

theorem told_runAll : (Stage.runAll o Stage.all (.start html)).told =
    ((Stage.ctas.found o html).hasTitle,
      o.ctaStrategy.select (Landmark.ctas (Stage.ctas.found o html).document)) := by
  have hnone : (Stage.ctas.found o html).ctas = [] := by
    have htold : (Stage.title.found o html).ctas = [] := congrArg Prod.snd told_found_title
    rw [Stage.found_ctas, Adaptation.runTitle]
    split
    · next v _ =>
      exact (congrArg Prod.snd (Adaptation.putToken_told _ "title" v)).trans htold
    · exact htold
  rw [Stage.runAll_all, Adaptation.runComments_told, Stage.found_comments, Adaptation.runBrand_told,
    Stage.found_brand, Adaptation.runBlocks_told, Stage.found_blocks, Adaptation.runCtas,
    Adaptation.foldl_addCta_told, hnone, List.nil_append]

theorem hasTitle_runAll : (Stage.runAll o Stage.all (.start html)).hasTitle =
    (Stage.ctas.found o html).hasTitle := congrArg Prod.fst told_runAll

theorem ctas_runAll : (Stage.runAll o Stage.all (.start html)).ctas =
    o.ctaStrategy.select (Landmark.ctas (Stage.ctas.found o html).document) :=
  congrArg Prod.snd told_runAll

/-- What holds when the calls to action are done stands in the end. -/
theorem places_runAll_ne_zero {w : String} (hmark : w.toList.any Contact.isMark = false)
    (h : (Stage.blocks.found o html).document.Holds w) :
    (Stage.runAll o Stage.all (.start html)).document.places w ≠ 0 := by
  rw [Stage.runAll_all, Adaptation.places_runComments, Stage.found_comments]
  refine Adaptation.places_runBrand_ne_zero hmark ?_
  rw [Stage.found_brand]
  exact Adaptation.places_runBlocks_ne_zero h.places _

theorem mem_extract_adapt {w : String} (hw : Inner w) (hne : w ≠ "")
    (hopen : w.toList.head? ≠ some '#') (hclose : w.toList.head? ≠ some '/')
    (h : (Stage.runAll o Stage.all (.start html)).document.places w ≠ 0) :
    w ∈ Template.extract (adapt o html).html := by
  have hvoid := Stage.follows_runAll (open_voidsEmpty Inner) o Stage.all (parse_voidsEmpty html).follows
  have hmarkup : token w.toList <:+: (adapt o html).html.toList := by
    rw [adapt, Adaptation.finish, Forest.toHtml, String.toList_ofList]
    exact infix_print hw.plain hvoid h false
  have htrim : trim w.toList = w.toList :=
    trim_of_blankless fun c hc => (isInner_solid (hw c hc)).2
  have hwanted : Wanted w.toList := by
    rw [Wanted, htrim]
    exact ⟨hw.braceFree, fun hnil => hne (String.toList_inj.mp hnil), hopen, hclose⟩
  have hmem := mem_placeholderNames_of_token hwanted hmarkup
  rw [htrim] at hmem
  exact List.mem_map.mpr ⟨_, hmem, String.ofList_toList⟩

/-- The title stands in the template if the title stage found one. -/
theorem title_mem_extract (h : (Stage.ctas.found o html).hasTitle = true) :
    "title" ∈ Template.extract (adapt o html).html := by
  have hnone : (Stage.title.found o html).hasTitle = false := congrArg Prod.fst told_found_title
  have hwritten : (Stage.ctas.found o html).document.Holds "title" := by
    rw [Stage.found_ctas, Adaptation.runTitle] at h ⊢
    split at h
    · next v hv =>
      refine .inl ?_
      simp only [Adaptation.putToken, Adaptation.record_document]
      exact texts_setText_self (Landmark.elementAt?_of_title? hv).1 "title"
    · rw [hnone] at h
      cases h
  have hputs : Stage.title.Puts "title" := by decide
  refine mem_extract_adapt hputs.1 (by decide) (by decide) (by decide)
    (places_runAll_ne_zero (by decide) ?_)
  rw [Stage.found_blocks]
  exact Adaptation.holds_foldl_addCta
    (fun c hc => (CtaStrategy.named_of_mem_select hc).1) hwritten

/-- A call to action stands in the template if any was found: the first has its link left. -/
theorem cta_mem_extract (h : (Stage.runAll o Stage.all (.start html)).ctas ≠ []) :
    ∃ w ∈ Template.extract (adapt o html).html, ['c', 't', 'a'] <:+: w.toList := by
  rw [ctas_runAll] at h
  obtain ⟨c, rest, hselect⟩ := List.exists_cons_of_ne_nil h
  have hlisted : ∀ d ∈ c :: rest, d ∈
      o.ctaStrategy.select (Landmark.ctas (Stage.ctas.found o html).document) := by simp [hselect]
  have hclaimed := CtaStrategy.any_claims_of_mem_select (hlisted c List.mem_cons_self)
  obtain ⟨e, he, hlinked⟩ := Forest.exists_linked hclaimed
  have hholds : (Stage.blocks.found o html).document.Holds c.textPlaceholder := by
    rw [Stage.found_blocks, Adaptation.runCtas, hselect, List.foldl_cons]
    refine Adaptation.holds_foldl_addCta (fun d hd => ?_) ?_
    · exact (CtaStrategy.named_of_mem_select (hlisted d (List.mem_cons_of_mem c hd))).1
    · rw [Adaptation.addCta_document]
      exact (Forest.holds_of_linked he hlinked).1
  have hname : ∀ w : String, w = "cta_1_text" ∨ w = "cta_top_text" → Stage.ctas.Puts w ∧
      w.toList.any Contact.isMark = false ∧ ['c', 't', 'a'] <+: w.toList := by
    rintro w (rfl | rfl)
    · decide
    · decide
  obtain ⟨hputs, hmark, hprefix⟩ := hname _ (CtaStrategy.head_select hselect)
  obtain ⟨hinner, initial, hinitial, hhead⟩ := hputs
  obtain rfl := List.mem_singleton.mp hinitial
  refine ⟨_, ?_, hprefix.isInfix⟩
  refine mem_extract_adapt hinner (fun hnil => ?_) ?_ ?_ (places_runAll_ne_zero hmark hholds)
  · simp [hnil] at hhead
  · simp [hhead]
  · simp [hhead]

/-- A check of a template misses no title that was put in, and finds a call to action if there is one. -/
theorem validate_adapt (o : AdaptOptions) (html : String) :
    ((adapt o html).details.suggestedSubjects ≠ [] →
      "title" ∉ (Template.validate (adapt o html).html).missingRequired) ∧
    ((adapt o html).details.detectedCtas ≠ [] →
      Template.noCtaMessage ∉ (Template.validate (adapt o html).html).warnings) := by
  constructor
  · intro hsubjects hmissing
    have htitle : (Stage.ctas.found o html).hasTitle = true := by
      rw [← hasTitle_runAll]
      by_contra hno
      exact hsubjects (if_neg hno)
    have hmem := title_mem_extract htitle
    simp [Template.validate, hmem] at hmissing
  · intro hctas hwarning
    rw [adapt] at hctas
    obtain ⟨w, hw, hi⟩ := cta_mem_extract hctas
    have hany : (Template.extract (adapt o html).html).any
        (fun name => occurs ['c', 't', 'a'] name.toList) = true :=
      List.any_eq_true.mpr ⟨w, hw, occurs_iff.mpr hi⟩
    simp only [Template.validate, hany, if_true, List.append_nil, List.mem_map] at hwarning
    obtain ⟨name, -, heq⟩ := hwarning
    exact Template.missingMessage_ne name heq

end Adapted

/-- A title beside stray braces, and a link inside a link. -/
theorem validate_adapt_nested :
    let t := adapt ⟨[], .all, false, false⟩
      "\x7b\x7b<h1>Hi</h1>\x7b<a class=btn href=x><table><td><a class=btn href=y>Go"
    (t.details.suggestedSubjects ≠ [] ∧ t.details.detectedCtas ≠ []) ∧
      "title" ∉ (Template.validate t.html).missingRequired ∧
      Template.noCtaMessage ∉ (Template.validate t.html).warnings := by
  intro t
  have hsubjects : t.details.suggestedSubjects.isEmpty = false := by decide +kernel
  have hctas : t.details.detectedCtas.isEmpty = false := by decide +kernel
  rw [List.isEmpty_eq_false_iff] at hsubjects hctas
  obtain ⟨htitle, hcta⟩ := validate_adapt ⟨[], .all, false, false⟩
    "\x7b\x7b<h1>Hi</h1>\x7b<a class=btn href=x><table><td><a class=btn href=y>Go"
  exact ⟨⟨hsubjects, hctas⟩, htitle hsubjects, hcta hctas⟩

end EmailTemplate
