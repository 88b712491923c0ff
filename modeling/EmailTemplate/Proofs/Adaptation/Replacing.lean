import EmailTemplate.Proofs.Adaptation.Check

/-! Which links the calls to action replace. In a document without links inside links each selected
call to action gets exactly the links with its text and address, though it is looked for in what the
others left. -/

namespace EmailTemplate

open Html Template Text

/-! ### Originals -/

/-- The text and the address that a call to action came with. -/
def Cta.originals (c : Cta) : String × String := (c.text, c.href)

namespace Landmark

theorem originals_ctas (doc : Forest) : (ctas doc).map Cta.originals =
    (firstBy (fun c => (c.text, c.href)) (doc.visits.filterMap candidate?)).map
      fun c => (c.text, c.href) := by
  refine List.ext_getElem (by simp [ctas]) fun i hi hi' => ?_
  simp [ctas, numbered, Cta.originals]

/-- What a link that is a call to action came with is listed. -/
theorem exists_mem_ctas {doc : Forest} {v : Visit} (hv : v ∈ doc.visits) {text href : String}
    (h : IsCall v text href) : ∃ c ∈ ctas doc, c.originals = (text, href) := by
  let candidate : Candidate := ⟨text, href, v.element.outerHtml⟩
  have hmem : candidate ∈ doc.visits.filterMap candidate? :=
    List.mem_filterMap.mpr ⟨v, hv, candidate?_eq_some_iff.mpr ⟨h, rfl⟩⟩
  have hkey := key_mem_firstBy (fun c : Candidate => (c.text, c.href)) hmem
  rw [← originals_ctas] at hkey
  exact List.mem_map.mp hkey

end Landmark

/-- No two selected calls to action came with the same text and address. -/
theorem CtaStrategy.nodup_originals (s : CtaStrategy) (doc : Forest) :
    ((s.select (Landmark.ctas doc)).map Cta.originals).Nodup := by
  refine s.nodup_map_select (fun _ _ hne => hne) ?_
  rw [Landmark.originals_ctas]
  exact Landmark.nodup_firstBy _ _

theorem Cta.originals_eq_of_claims {c d : Cta} {e : Element} (hc : c.claims e = true)
    (hd : d.claims e = true) : c.originals = d.originals := by
  simp only [claims, Bool.and_eq_true, beq_iff_eq] at hc hd
  have htext : c.text.toList = d.text.toList := hc.2.symm.trans hd.2
  have hhref : some c.href = some d.href := hc.1.2.symm.trans hd.1.2
  rw [originals, originals, String.toList_inj.mp htext, Option.some.inj hhref]

theorem CtaStrategy.eq_of_claims {s : CtaStrategy} {doc : Forest} {c d : Cta} {e : Element}
    (hc : c ∈ s.select (Landmark.ctas doc)) (hd : d ∈ s.select (Landmark.ctas doc))
    (hclaims : c.claims e = true) (hclaims' : d.claims e = true) : c = d :=
  List.inj_on_of_nodup_map (s.nodup_originals doc) hc hd (Cta.originals_eq_of_claims hclaims hclaims')

/-! ### Links with tokens -/

/-- A link with the tokens of a call to action in place of its content and its address, and with all
its other attributes. -/
structure Cta.Tokened (c : Cta) (e e' : Element) : Prop where
  tag : e'.tag = e.tag
  content : e'.children = .text (nameToken c.textPlaceholder) .nil
  address : e'.attribute? "href" = some (nameToken c.urlPlaceholder)
  attributes : ∃ before a after, e.attributes = before ++ a :: after ∧
    (∀ b ∈ before, b.name ≠ "href") ∧ a.name = "href" ∧
      e'.attributes = before ++ { a with value := nameToken c.urlPlaceholder } :: after

theorem setAttribute_eq {name : String} {as : List Attribute} (h : ∃ a ∈ as, a.name = name)
    (value : String) : ∃ before a after, as = before ++ a :: after ∧
      (∀ b ∈ before, b.name ≠ name) ∧ a.name = name ∧
        setAttribute name value as = before ++ { a with value := value } :: after := by
  induction as with
  | nil => simp at h
  | cons first as ih =>
    by_cases hfirst : first.name = name
    · exact ⟨[], first, as, rfl, by simp, hfirst, by rw [setAttribute, if_pos hfirst]; rfl⟩
    · have hrest : ∃ a ∈ as, a.name = name := by
        obtain ⟨a, ha, hname⟩ := h
        exact ⟨a, (List.mem_cons.mp ha).resolve_left fun heq => hfirst (heq ▸ hname), hname⟩
      obtain ⟨before, a, after, heq, hbefore, hname, hset⟩ := ih hrest
      refine ⟨first :: before, a, after, by rw [heq]; rfl, ?_, hname, ?_⟩
      · exact List.forall_mem_cons.mpr ⟨hfirst, hbefore⟩
      · rw [setAttribute, if_neg hfirst, hset]
        rfl

namespace Cta

variable {c d : Cta} {e e' : Element}

theorem isTag_of_claims (h : c.claims e = true) : e.isTag "a" = true := by
  simp only [claims, Bool.and_eq_true] at h
  exact h.1.1

theorem tokened_of_claims (h : c.claims e = true) :
    c.Tokened e ⟨e.tag, setAttribute "href" (nameToken c.urlPlaceholder) e.attributes,
      .text (nameToken c.textPlaceholder) .nil⟩ := by
  obtain ⟨before, a, after, heq, hbefore, hname, hset⟩ :=
    setAttribute_eq (exists_attribute h) (nameToken c.urlPlaceholder)
  refine ⟨rfl, rfl, ?_, before, a, after, heq, hbefore, hname, hset⟩
  have hnone : before.find? (·.name == "href") = none :=
    List.find?_eq_none.mpr fun b hb => by simpa using hbefore b hb
  rw [Element.attribute?, hset, List.find?_append, hnone, Option.none_or, List.find?_cons_of_pos]
  · rfl
  · simpa using hname

theorem Tokened.isTag (h : c.Tokened e e') (name : String) : e'.isTag name = e.isTag name := by
  rw [Element.isTag, Element.isTag, h.tag]

theorem Tokened.hasBraces (h : c.Tokened e e') : openBraces <:+: e'.textContent.toList := by
  have hcontent : e'.textContent.toList = token c.textPlaceholder.toList := by
    rw [Element.textContent, h.content, Forest.textContent, Forest.textContent, String.append_empty,
      toList_nameToken]
  rw [hcontent]
  exact openBraces_infix_token _

/-- A link with tokens is claimed by no call to action any more. -/
theorem Tokened.not_claims (h : c.Tokened e e') (hd : d.Tokenless) : d.claims e' = false :=
  Bool.eq_false_iff.mpr fun hclaims => hd.textContent hclaims h.hasBraces

theorem Tokened.textPlaceholder_eq (hc : c.Tokened e e') (hd : d.Tokened e e') :
    c.textPlaceholder = d.textPlaceholder := by
  have htexts := congrArg Forest.textContent (hc.content.symm.trans hd.content)
  simp only [Forest.textContent, String.append_empty] at htexts
  have htokens := congrArg String.toList htexts
  simp only [toList_nameToken, token, List.append_cancel_right_eq, List.append_cancel_left_eq] at htokens
  exact String.toList_inj.mp htokens

end Cta

/-! ### Documents with tokens -/

namespace Html.Forest

def LinksApart (f : Forest) : Prop :=
  ∀ e ∈ f.elements, e.isTag "a" = true → ∀ inner ∈ e.children.elements, inner.isTag "a" = false

instance (f : Forest) : Decidable f.LinksApart :=
  inferInstanceAs (Decidable (∀ e ∈ f.elements, e.isTag "a" = true →
    ∀ inner ∈ e.children.elements, inner.isTag "a" = false))

def links (f : Forest) : List Element := f.elements.filter (·.isTag "a")

/-- What a document becomes when each link that is claimed gets the tokens of a call to action that
claims it, and every other node stays as it is. -/
inductive TokensPut (ctas : List Cta) : Forest → Forest → Prop
  | nil : TokensPut ctas .nil .nil
  | text {s : String} {rest rest' : Forest} (hrest : TokensPut ctas rest rest') :
      TokensPut ctas (.text s rest) (.text s rest')
  | comment {s : String} {rest rest' : Forest} (hrest : TokensPut ctas rest rest') :
      TokensPut ctas (.comment s rest) (.comment s rest')
  | doctype {name : String} {rest rest' : Forest} (hrest : TokensPut ctas rest rest') :
      TokensPut ctas (.doctype name rest) (.doctype name rest')
  | link {c : Cta} {e e' : Element} {rest rest' : Forest} (hc : c ∈ ctas)
      (hclaims : c.claims e = true) (hput : c.Tokened e e') (hrest : TokensPut ctas rest rest') :
      TokensPut ctas (e.followedBy rest) (e'.followedBy rest')
  | other {e : Element} {children' rest rest' : Forest} (hno : ∀ c ∈ ctas, c.claims e = false)
      (hchildren : TokensPut ctas e.children children') (hrest : TokensPut ctas rest rest') :
      TokensPut ctas (e.followedBy rest) (({ e with children := children' } : Element).followedBy rest')

variable {f f' : Forest} {ctas : List Cta} {c : Cta}

theorem linksApart_followedBy {e : Element} {rest : Forest} (h : (e.followedBy rest).LinksApart) :
    (e.isTag "a" = true → ∀ inner ∈ e.children.elements, inner.isTag "a" = false) ∧
      e.children.LinksApart ∧ rest.LinksApart := by
  obtain ⟨hself, hinside⟩ := List.forall_mem_cons.mp h
  obtain ⟨hchildren, hrest⟩ := List.forall_mem_append.mp hinside
  exact ⟨hself, hchildren, hrest⟩

theorem replaceCta_followedBy (c : Cta) (e : Element) (rest : Forest) :
    (e.followedBy rest).replaceCta c =
      if c.claims e then
        Element.followedBy ⟨e.tag, setAttribute "href" (nameToken c.urlPlaceholder) e.attributes,
          .text (nameToken c.textPlaceholder) .nil⟩ (rest.replaceCta c)
      else ({ e with children := e.children.replaceCta c } : Element).followedBy
        (rest.replaceCta c) := rfl

theorem links_followedBy (e : Element) (rest : Forest) : (e.followedBy rest).links =
    (if e.isTag "a" then [e] else []) ++ (e.children.links ++ rest.links) := by
  simp only [links, Element.followedBy, elements, List.filter_cons, List.filter_append]
  split <;> rfl

theorem links_eq_nil {f : Forest} (h : ∀ e ∈ f.elements, e.isTag "a" = false) : f.links = [] :=
  List.filter_eq_nil_iff.mpr fun e he => by simp [h e he]

namespace TokensPut

theorem refl (f : Forest) : TokensPut [] f f := by
  induction f with
  | nil => exact .nil
  | text s rest ih => exact .text ih
  | comment s rest ih => exact .comment ih
  | doctype name rest ih => exact .doctype ih
  | element tag attributes children rest ihc ihr =>
    exact .other (e := ⟨tag, attributes, children⟩) (by simp) ihc ihr

/-- Where there is no link nothing is put in. -/
theorem eq_of_linkless (h : TokensPut ctas f f') (hno : ∀ e ∈ f.elements, e.isTag "a" = false) :
    f' = f := by
  induction h with
  | nil => rfl
  | text _ ih => rw [ih hno]
  | comment _ ih => rw [ih hno]
  | doctype _ ih => rw [ih hno]
  | link _ hclaims _ _ _ =>
    have htag := hno _ List.mem_cons_self
    rw [Cta.isTag_of_claims hclaims] at htag
    cases htag
  | @other e children' rest rest' _ _ _ ihc ihr =>
    obtain ⟨hchildren, hrest⟩ := List.forall_mem_append.mp (List.forall_mem_cons.mp hno).2
    rw [ihc hchildren, ihr hrest]

/-- One more call to action gets its links, among those that the ones before it have left. -/
theorem replaceCta (h : TokensPut ctas f f') (hc : c.Tokenless) (hapart : f.LinksApart) :
    TokensPut (ctas ++ [c]) f (f'.replaceCta c) := by
  induction h with
  | nil => exact .nil
  | text _ ih => exact .text (ih hapart)
  | comment _ ih => exact .comment (ih hapart)
  | doctype _ ih => exact .doctype (ih hapart)
  | @link d e e' rest rest' hd hclaims hput _ ih =>
    have hstays : ({ e' with children := e'.children.replaceCta c } : Element) = e' := by
      obtain ⟨tag, attributes, children⟩ := e'
      obtain rfl : children = _ := hput.content
      rfl
    rw [replaceCta_followedBy, hput.not_claims hc, if_neg Bool.false_ne_true, hstays]
    exact .link (List.mem_append_left _ hd) hclaims hput (ih (linksApart_followedBy hapart).2.2)
  | @other e children' rest rest' hno hchildren _ ihc ihr =>
    obtain ⟨hself, hinside, hbehind⟩ := linksApart_followedBy hapart
    -- Inside a link nothing has been put in, so it is claimed now if it was claimed at first.
    have hsame : c.claims { e with children := children' } = c.claims e := by
      by_cases htag : e.isTag "a" = true
      · rw [hchildren.eq_of_linkless (hself htag)]
      · have hother : ∀ e : Element, ¬ e.isTag "a" = true → c.claims e = false := fun e htag =>
          Bool.eq_false_iff.mpr fun hclaims => htag (Cta.isTag_of_claims hclaims)
        exact (hother { e with children := children' } htag).trans (hother e htag).symm
    rw [replaceCta_followedBy]
    by_cases hclaims : c.claims e = true
    · rw [if_pos (hsame.trans hclaims)]
      exact .link (List.mem_append_right _ List.mem_cons_self) hclaims (Cta.tokened_of_claims hclaims)
        (ihr hbehind)
    · have hunclaimed : c.claims e = false := by simpa using hclaims
      rw [if_neg (by rw [hsame, hunclaimed]; simp)]
      refine .other (e := e) (fun d hd => ?_) (ihc hinside) (ihr hbehind)
      rcases List.mem_append.mp hd with hd | hd
      · exact hno d hd
      · rw [List.mem_singleton.mp hd]
        exact hunclaimed

/-- Every link stands on its own, with tokens or as it was. -/
theorem forall₂_links {P : Element → Element → Prop} (h : TokensPut ctas f f')
    (hapart : f.LinksApart)
    (hlink : ∀ {c e e'}, c ∈ ctas → c.claims e = true → c.Tokened e e' → P e e')
    (hother : ∀ {e}, (∀ c ∈ ctas, c.claims e = false) → P e e) : List.Forall₂ P f.links f'.links := by
  induction h with
  | nil => exact .nil
  | text _ ih => exact ih hapart
  | comment _ ih => exact ih hapart
  | doctype _ ih => exact ih hapart
  | @link c e e' rest rest' hc hclaims hput _ ih =>
    obtain ⟨hself, -, hbehind⟩ := linksApart_followedBy hapart
    have htag := Cta.isTag_of_claims hclaims
    have hnone : e'.children.links = [] := by rw [hput.content]; rfl
    rw [links_followedBy, links_followedBy, hput.isTag, htag, links_eq_nil (hself htag), hnone]
    exact .cons (hlink hc hclaims hput) (ih hbehind)
  | @other e children' rest rest' hno hchildren _ ihc ihr =>
    obtain ⟨hself, hinside, hbehind⟩ := linksApart_followedBy hapart
    have hrest : List.Forall₂ P (e.children.links ++ rest.links) (children'.links ++ rest'.links) :=
      List.rel_append (ihc hinside) (ihr hbehind)
    have htagged : ({ e with children := children' } : Element).isTag "a" = e.isTag "a" := rfl
    rw [links_followedBy, links_followedBy, htagged]
    by_cases htag : e.isTag "a" = true
    · rw [if_pos htag, if_pos htag]
      refine .cons ?_ hrest
      rw [hchildren.eq_of_linkless (hself htag)]
      exact hother hno
    · rw [if_neg htag, if_neg htag]
      exact hrest

end TokensPut

/-- Each call to action has replaced a link, and exactly those with its text and address; no link is
claimed twice, and nothing else has changed. -/
structure ReplacedExactly (ctas : List Cta) (f f' : Forest) : Prop where
  document : TokensPut ctas f f'
  links : List.Forall₂ (fun e e' =>
    (∀ c ∈ ctas, c.claims e = true ↔ e' ≠ e ∧ c.Tokened e e') ∧
      ((∀ c ∈ ctas, c.claims e = false) → e' = e)) f.links f'.links
  found : ∀ c ∈ ctas, ∃ e ∈ f.links, c.claims e = true
  once : ∀ e ∈ f.links, ∀ c ∈ ctas, ∀ d ∈ ctas, c.claims e = true → d.claims e = true → c = d

end Html.Forest

namespace Adaptation

/-- What every call to action carries on, from those before it and the document that they leave, all
of them carry on. -/
theorem of_foldl_addCta {P : List Cta → Forest → Prop} {ctas done : List Cta} {a : Adaptation}
    (hnext : ∀ c ∈ ctas, ∀ {done f}, P done f → P (done ++ [c]) (f.replaceCta c))
    (h : P done a.document) : P (done ++ ctas) (ctas.foldl addCta a).document := by
  induction ctas generalizing done a with
  | nil => simpa using h
  | cons c ctas ih =>
    obtain ⟨hfirst, hrest⟩ := List.forall_mem_cons.mp hnext
    have hput : P (done ++ [c]) (a.addCta c).document := by
      rw [addCta_document]
      exact hfirst h
    rw [List.append_cons, List.foldl_cons]
    exact ih hrest hput

theorem tokensPut_runCtas (strategy : CtaStrategy) {a : Adaptation} (h : a.document.LinksApart) :
    Forest.TokensPut (strategy.select (Landmark.ctas a.document)) a.document
      (a.runCtas strategy).document := by
  have htokenless : ∀ c ∈ strategy.select (Landmark.ctas a.document), c.Tokenless :=
    fun c hc => (CtaStrategy.named_of_mem_select hc).1
  exact of_foldl_addCta (P := fun done f => Forest.TokensPut done a.document f)
    (fun c hc _ _ hput => hput.replaceCta (htokenless c hc) h) (.refl a.document)

/-- In a document without links inside links the calls to action that a strategy selects replace the
links that they came from, and nothing else. -/
theorem replacedExactly_runCtas (strategy : CtaStrategy) (a : Adaptation)
    (h : a.document.LinksApart) :
    Forest.ReplacedExactly (strategy.select (Landmark.ctas a.document)) a.document
      (a.runCtas strategy).document := by
  have hput := tokensPut_runCtas strategy h
  refine ⟨hput, hput.forall₂_links h ?_ ?_, ?_, ?_⟩
  · intro c e e' hc hclaims htokened
    refine ⟨fun d hd => ⟨fun hclaims' => ?_, fun hd' => ?_⟩, fun hno => ?_⟩
    · have hchanged : e' ≠ e := by
        rintro rfl
        rw [htokened.not_claims (CtaStrategy.named_of_mem_select hc).1] at hclaims
        cases hclaims
      rw [CtaStrategy.eq_of_claims hd hc hclaims' hclaims]
      exact ⟨hchanged, htokened⟩
    · have hsame : d = c := List.inj_on_of_nodup_map (strategy.nodup_select a.document) hd hc
        (hd'.2.textPlaceholder_eq htokened)
      rwa [hsame]
    · rw [hno c hc] at hclaims
      cases hclaims
  · intro e hno
    refine ⟨fun c hc => ⟨fun hclaims => ?_, fun hchanged => absurd rfl hchanged.1⟩, fun _ => rfl⟩
    rw [hno c hc] at hclaims
    cases hclaims
  · intro c hc
    obtain ⟨e, he, hclaims⟩ := List.any_eq_true.mp (CtaStrategy.any_claims_of_mem_select hc)
    exact ⟨e, List.mem_filter.mpr ⟨he, Cta.isTag_of_claims hclaims⟩, hclaims⟩
  · intro e _ c hc d hd hclaims hclaims'
    exact CtaStrategy.eq_of_claims hc hd hclaims hclaims'

/-- A button with a plain link to the same place, and buttons that share a text or stand last. -/
def buttons : Adaptation :=
  start ("<a class=btn href=x>Go</a><p><a href=x><b>Go</b></a><a class=btn href=y>Go</a>" ++
    "<a href=z title=t role=button>Ok")

theorem replacedExactly_buttons :
    buttons.document.LinksApart ∧
      (CtaStrategy.topBottom.select (Landmark.ctas buttons.document)).map Cta.originals =
        [("Go", "x"), ("Ok", "z")] ∧
      Forest.ReplacedExactly (CtaStrategy.topBottom.select (Landmark.ctas buttons.document))
        buttons.document (buttons.runCtas .topBottom).document := by
  have hapart : buttons.document.LinksApart := by decide +kernel
  have hselected : (CtaStrategy.topBottom.select (Landmark.ctas buttons.document)).map
      Cta.originals = [("Go", "x"), ("Ok", "z")] := by decide +kernel
  exact ⟨hapart, hselected, replacedExactly_runCtas .topBottom buttons hapart⟩

end Adaptation

end EmailTemplate
