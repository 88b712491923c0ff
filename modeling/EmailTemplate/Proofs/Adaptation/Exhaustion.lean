import EmailTemplate.Proofs.Adaptation.Replacing
import EmailTemplate.Proofs.Html.Visits

/-! When all calls to action are replaced, none is left to be found: what stands in the document
afterwards has a token in its text, or stood there at first and was no call to action. -/

namespace EmailTemplate

open Html Template Text

/-! ### What a candidate depends on -/

namespace Landmark

theorem any_isButtonCell (v : Visit) : ((v.around.take cellDepth).any fun a => isButtonCell a.2) =
    (v.setting.take cellDepth).any fun s => isButtonCell ⟨s.1, s.2, .nil⟩ := by
  rw [Visit.setting, kinds, ← List.map_take, List.any_map]
  rfl

/-- A candidate is known by its element and by the tags and attributes around it. -/
theorem candidate?_congr {v w : Visit} (helement : v.element = w.element)
    (hsetting : v.setting = w.setting) : candidate? v = candidate? w := by
  have hbutton : isButton v = isButton w := by
    rw [isButton, isButton, any_isButtonCell, any_isButtonCell, helement, hsetting]
  simp only [candidate?, hbutton, helement]

theorem candidate?_of_hasBraces {v : Visit} (h : openBraces <:+: v.element.textContent.toList) :
    candidate? v = none := by
  rw [Option.eq_none_iff_forall_ne_some]
  intro found hfound
  let c : Cta := ⟨found.snapshot, "", "", found.text, found.href⟩
  have htokenless : c.Tokenless := (candidate?_eq_some_iff.mp hfound).1.tokenless
  exact htokenless.textContent (claims_of_candidate? hfound rfl rfl) h

/-- What has been found is claimed by a call to action. -/
theorem exists_claims_of_candidate? {doc : Forest} {v : Visit} (hv : v ∈ doc.visits)
    {found : Candidate} (hfound : candidate? v = some found) :
    ∃ c ∈ ctas doc, c.claims v.element = true := by
  obtain ⟨c, hc, heq⟩ := exists_mem_ctas hv (candidate?_eq_some_iff.mp hfound).1
  obtain ⟨htext, hhref⟩ := Prod.mk.inj heq
  exact ⟨c, hc, claims_of_candidate? hfound htext hhref⟩

end Landmark

/-! ### What replacement leaves -/

namespace Html.Forest

/-- Every element of a document has a token in its text, or is one of another document with all that
is in it, among like elements, and claimed by none of the calls to action. -/
def Left (ctas : List Cta) (f f' : Forest) : Prop :=
  ∀ v' ∈ f'.visits, openBraces <:+: v'.element.textContent.toList ∨
    ∃ v ∈ f.visits, v.element = v'.element ∧ v.setting = v'.setting ∧
      ∀ c ∈ ctas, c.claims v.element = false

theorem left_nil (f : Forest) : Left [] f f := fun v hv => .inr ⟨v, hv, rfl, rfl, by simp⟩

variable {c : Cta}

theorem hasBraces_of_mem_replaceCta {f : Forest} (h : f.elements.any c.claims = true) :
    openBraces <:+: (f.replaceCta c).textContent.toList := by
  obtain ⟨e, he, hchildren, -⟩ := exists_linked h
  have hbraces : openBraces <:+: e.textContent.toList := by
    rw [Element.textContent, hchildren, textContent, textContent, String.append_empty,
      toList_nameToken]
    exact openBraces_infix_token _
  exact hbraces.trans (textContent_infix_of_mem he)

/-- An element that stands after a replacement stood before it, unless a token is in it now. -/
theorem exists_visit_of_replaceCta {f : Forest} {around around' : List (Nat × Element)}
    (haround : kinds around' = kinds around) (i : Nat) {i' : Nat} {v' : Visit}
    (h : v' ∈ (f.replaceCta c).visitsFrom i' around') :
    openBraces <:+: v'.element.textContent.toList ∨
      ∃ v ∈ f.visitsFrom i around, v.element = v'.element ∧ v.setting = v'.setting ∧
        c.claims v.element = false := by
  induction f generalizing i i' around around' with
  | nil => exact absurd h List.not_mem_nil
  | text s rest ih => exact ih haround i h
  | comment s rest ih => exact ih haround i h
  | doctype name rest ih => exact ih haround i h
  | element tag attributes children rest ihc ihr =>
    have hbehind : ∀ {j'}, v' ∈ (rest.replaceCta c).visitsFrom j' around' →
        openBraces <:+: v'.element.textContent.toList ∨
          ∃ v ∈ (element tag attributes children rest).visitsFrom i around,
            v.element = v'.element ∧ v.setting = v'.setting ∧ c.claims v.element = false := by
      intro j' h
      refine (ihr haround (i + 1 + children.count) h).imp_right ?_
      rintro ⟨v, hv, hstood⟩
      exact ⟨v, List.mem_cons_of_mem _ (List.mem_append_right _ hv), hstood⟩
    rw [replaceCta] at h
    split at h
    · next hclaims =>
      rcases List.mem_cons.mp h with rfl | h
      · exact .inl (Cta.tokened_of_claims hclaims).hasBraces
      · exact hbehind h
    · next hno =>
      have hunclaimed : c.claims ⟨tag, attributes, children⟩ = false := by simpa using hno
      rcases List.mem_cons.mp h with rfl | h
      · cases hinside : children.elements.any c.claims with
        | true => exact .inl (hasBraces_of_mem_replaceCta hinside)
        | false =>
          have hsame : children.replaceCta c = children := replaceCta_of_unclaimed hinside
          refine .inr ⟨_, List.mem_cons_self, ?_, haround.symm, hunclaimed⟩
          rw [hsame]
      · rcases List.mem_append.mp h with h | h
        · have hinner : kinds ((i', ⟨tag, attributes, children.replaceCta c⟩) :: around') =
              kinds ((i, ⟨tag, attributes, children⟩) :: around) :=
            congrArg ((tag, attributes) :: ·) haround
          refine (ihc hinner (i + 1) h).imp_right ?_
          rintro ⟨v, hv, hstood⟩
          exact ⟨v, List.mem_cons_of_mem _ (List.mem_append_left _ hv), hstood⟩
        · exact hbehind h

theorem Left.replaceCta {ctas : List Cta} {f g : Forest} (h : Left ctas f g) :
    Left (ctas ++ [c]) f (g.replaceCta c) := by
  intro v' hv'
  rcases exists_visit_of_replaceCta rfl 0 hv' with hbraces | ⟨w, hw, helement, hsetting, hunclaimed⟩
  · exact .inl hbraces
  · rw [← helement, ← hsetting]
    refine (h w hw).imp_right ?_
    rintro ⟨v, hv, hsame, haround, hno⟩
    refine ⟨v, hv, hsame, haround, fun d hd => ?_⟩
    rcases List.mem_append.mp hd with hd | hd
    · exact hno d hd
    · rw [List.mem_singleton.mp hd, hsame]
      exact hunclaimed

end Html.Forest

namespace Adaptation

theorem left_runCtas (strategy : CtaStrategy) (a : Adaptation) :
    Forest.Left (strategy.select (Landmark.ctas a.document)) a.document
      (a.runCtas strategy).document :=
  of_foldl_addCta (P := fun done f => Forest.Left done a.document f)
    (fun _ _ _ _ hleft => hleft.replaceCta) (Forest.left_nil a.document)

/-- After all calls to action are replaced none is found, however links stand inside each other, so
that a second time nothing is changed. -/
theorem runCtas_all_exhausts (a : Adaptation) :
    Landmark.ctas (a.runCtas .all).document = [] ∧
      (a.runCtas .all).runCtas .all = a.runCtas .all := by
  have hleft : Forest.Left (Landmark.ctas a.document) a.document (a.runCtas .all).document :=
    left_runCtas .all a
  have hnone : (a.runCtas .all).document.visits.filterMap Landmark.candidate? = [] := by
    refine List.filterMap_eq_nil_iff.mpr fun v' hv' => ?_
    rcases hleft v' hv' with hbraces | ⟨v, hv, helement, hsetting, hno⟩
    · exact Landmark.candidate?_of_hasBraces hbraces
    · rw [← Landmark.candidate?_congr helement hsetting, Option.eq_none_iff_forall_ne_some]
      intro found hfound
      obtain ⟨c, hc, hclaims⟩ := Landmark.exists_claims_of_candidate? hv hfound
      rw [hno c hc] at hclaims
      cases hclaims
  have hctas : Landmark.ctas (a.runCtas .all).document = [] := by
    rw [Landmark.ctas, hnone]
    rfl
  refine ⟨hctas, ?_⟩
  rw [runCtas, hctas]
  rfl

end Adaptation

end EmailTemplate
