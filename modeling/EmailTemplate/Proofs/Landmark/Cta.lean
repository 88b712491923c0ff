import EmailTemplate.Proofs.Adaptation.Replacing
import EmailTemplate.Proofs.Html.Visits

/-! The list of calls to action: every text and address of a link that looks like one, once each, in
the order in which they first stand in the document, numbered from one. Whatever is selected from the
list, no two of them share their originals or their names. -/

namespace EmailTemplate

open Html Template Text

def Cta.names (c : Cta) : List String := [c.textPlaceholder, c.urlPlaceholder]

namespace Landmark

/-- The candidates of a document, each with its link. -/
def found (doc : Forest) : List (Visit × Candidate) :=
  doc.visits.filterMap fun v => (candidate? v).map fun c => (v, c)

/-- Of the candidates with one text and one address the first. -/
def firstFound (doc : Forest) : List (Visit × Candidate) :=
  firstBy (fun p => (p.2.text, p.2.href)) (found doc)

variable {doc : Forest} {p : Visit × Candidate}

theorem mem_found : p ∈ found doc ↔ p.1 ∈ doc.visits ∧ candidate? p.1 = some p.2 := by
  obtain ⟨v, c⟩ := p
  simp [found]

theorem pairwise_found (doc : Forest) : (found doc).Pairwise (·.1.index < ·.1.index) := by
  refine doc.pairwise_visits.filterMap _ fun v w hlt p hp q hq => ?_
  obtain ⟨c, -, rfl⟩ := Option.map_eq_some_iff.mp hp
  obtain ⟨d, -, rfl⟩ := Option.map_eq_some_iff.mp hq
  exact hlt

theorem ctas_eq_firstFound (doc : Forest) :
    ctas doc = (firstFound doc).mapIdx fun i p => numbered i p.2 := by
  have hfound : doc.visits.filterMap candidate? = (found doc).map Prod.snd := by
    simp [found, List.map_filterMap]
  rw [ctas, hfound, firstBy_map]
  refine List.ext_getElem (by simp [firstFound, Function.comp_def]) fun i hi hi' => ?_
  simp [firstFound, Function.comp_def]

/-- No link before the one that is kept has its text and its address. -/
theorem first_of_mem_firstFound (h : p ∈ firstFound doc) :
    doc.First (fun v => IsCall v p.2.text p.2.href) p.1 := by
  obtain ⟨hmem, hcandidate⟩ := mem_found.mp ((firstBy_sublist _ _).subset h)
  refine ⟨hmem, (candidate?_eq_some_iff.mp hcandidate).1, fun w hw hlt hcall => ?_⟩
  let c : Candidate := ⟨p.2.text, p.2.href, w.element.outerHtml⟩
  have hother : (w, c) ∈ found doc := mem_found.mpr ⟨hw, candidate?_eq_some_iff.mpr ⟨hcall, rfl⟩⟩
  rcases rel_of_mem_firstBy (pairwise_found doc) h hother rfl with heq | hbehind
  · rw [← heq] at hlt
    exact Nat.lt_irrefl _ hlt
  · exact Nat.lt_asymm hlt hbehind

theorem forall₂_firstFound (doc : Forest) :
    List.Forall₂ (fun v c => doc.First (IsCall · c.text c.href) v)
      ((firstFound doc).map Prod.fst) (ctas doc) := by
  rw [ctas_eq_firstFound]
  refine List.forall₂_iff_get.mpr ⟨by simp, fun i hi hi' => ?_⟩
  have hlength : i < (firstFound doc).length := by simpa using hi'
  have hmem : (firstFound doc)[i] ∈ firstFound doc := List.getElem_mem hlength
  simpa [numbered] using first_of_mem_firstFound hmem

theorem names_of_getElem? {k : Nat} {c : Cta} (h : (ctas doc)[k]? = some c) :
    c.names = ["cta_" ++ toString (k + 1) ++ "_text", "cta_" ++ toString (k + 1) ++ "_url"] := by
  rw [ctas, List.getElem?_mapIdx] at h
  obtain ⟨candidate, -, rfl⟩ := Option.map_eq_some_iff.mp h
  rfl

end Landmark

theorem Cta.Named.text_eq_of_url_eq {c d : Cta} {stem stem' : String} (hc : c.Named stem)
    (hd : d.Named stem') (h : c.urlPlaceholder = d.urlPlaceholder) :
    c.textPlaceholder = d.textPlaceholder := by
  rw [hc.url, hd.url, String.append_left_inj, String.append_right_inj] at h
  rw [hc.text, hd.text, h]

theorem CtaStrategy.nodup_names (s : CtaStrategy) (doc : Forest) :
    ((s.select (Landmark.ctas doc)).flatMap Cta.names).Nodup := by
  have hnamed : ∀ c ∈ s.select (Landmark.ctas doc), ∃ stem, c.Named stem :=
    fun c hc => (named_of_mem_select hc).2
  refine List.nodup_flatMap.mpr ⟨fun c hc => ?_, ?_⟩
  · obtain ⟨stem, hstem⟩ := hnamed c hc
    simp [Cta.names, hstem.text_ne_url hstem]
  · have htexts := List.pairwise_map.mp (s.nodup_select doc)
    refine htexts.imp_of_mem fun {c d} hc hd hne => ?_
    obtain ⟨stem, hstem⟩ := hnamed c hc
    obtain ⟨stem', hstem'⟩ := hnamed d hd
    have hurls : c.urlPlaceholder ≠ d.urlPlaceholder := fun h =>
      hne (hstem.text_eq_of_url_eq hstem' h)
    simp [Function.onFun, Cta.names, hne.symm, hurls.symm, hstem'.text_ne_url hstem,
      (hstem.text_ne_url hstem').symm]

namespace Landmark

/-- The calls to action are the texts and addresses of the links that look like one. Each comes from
the first link in the document that has them, in the order of these links; every such link's text and
address are listed, none twice; and they are numbered from one. Of those that a strategy selects no two
have the same originals, and no name is given twice. -/
theorem ctas_exact (doc : Forest) :
    (∃ firsts : List Visit, firsts.Pairwise (·.index < ·.index) ∧
      List.Forall₂ (fun v c => doc.First (IsCall · c.text c.href) v) firsts (ctas doc)) ∧
    (∀ v ∈ doc.visits, ∀ text href, IsCall v text href →
      ∃ c ∈ ctas doc, c.originals = (text, href)) ∧
    ((ctas doc).map Cta.originals).Nodup ∧
    (∀ k c, (ctas doc)[k]? = some c →
      c.names = ["cta_" ++ toString (k + 1) ++ "_text", "cta_" ++ toString (k + 1) ++ "_url"]) ∧
    ∀ s : CtaStrategy, ((s.select (ctas doc)).map Cta.originals).Nodup ∧
      ((s.select (ctas doc)).flatMap Cta.names).Nodup := by
  have hrising : ((firstFound doc).map Prod.fst).Pairwise (·.index < ·.index) :=
    List.pairwise_map.mpr ((pairwise_found doc).sublist (firstBy_sublist _ _))
  refine ⟨⟨_, hrising, forall₂_firstFound doc⟩, fun v hv _ _ h => exists_mem_ctas hv h, ?_,
    fun _ _ h => names_of_getElem? h, fun s => ⟨s.nodup_originals doc, s.nodup_names doc⟩⟩
  exact CtaStrategy.nodup_originals .all doc

end Landmark

end EmailTemplate
