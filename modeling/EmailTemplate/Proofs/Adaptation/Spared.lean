import EmailTemplate.Proofs.Adaptation.Contacts

/-! Mail addresses and addresses of images under the replacement of contacts. Both stay where nothing
that is found in the markup reaches into them. -/

namespace EmailTemplate

open Html Template Text

namespace Adaptation

open Finding

/-! ### Mail addresses -/

/-- Every mail address in a text of the body but the first of the markup still stands in that text
after the replacement. -/
def KeepsAddresses (a : Adaptation) : Prop :=
  ∀ body ∈ a.document.body?, ∀ first ∈ Contact.mailAddress.find? body.element.innerHtml.toList,
    ∀ body' ∈ a.runBrand.document.body?, List.Forall₂ (fun s s' : String =>
      ∀ m ∈ Contact.mailAddress.findAll s.toList, m ≠ first → m <:+: s'.toList)
      body.element.children.textNodes body'.element.children.textNodes

/-- A mail address in a text stays if and only if it stands in a piece that is left when the text is cut
at all that is found in the markup, one after the other; so it does where none of that overlaps it. -/
theorem mailAddresses_runBrand {a : Adaptation} {body : Visit} (hbody : a.document.body? = some body) :
    ∃ body', a.runBrand.document.body? = some body' ∧ body'.index = body.index ∧
      List.Forall₂ (fun s s' : String => ∀ m ∈ Contact.mailAddress.findAll s.toList,
        (m <:+: s'.toList ↔ ∃ w ∈ cutAll
          ((Contact.findings body.element.innerHtml.toList).map (·.text)) s.toList, m <:+: w) ∧
        ∀ before after, s.toList = before ++ (m ++ after) →
          (∀ f ∈ Contact.findings body.element.innerHtml.toList, Clear f.text before m after) →
            m <:+: s'.toList)
        body.element.children.textNodes body'.element.children.textNodes := by
  obtain ⟨body', hbody', hindex, helement⟩ := body?_runBrand hbody
  refine ⟨body', hbody', hindex, ?_⟩
  rw [helement, Forest.textNodes_rewrite, List.forall₂_map_right_iff, List.forall₂_same]
  intro s _ m hm
  have hdetail : Contact.Detail m := Contact.mailAddress_detail.findAll hm
  have hstands : m <:+: replaceEach (Contact.findings body.element.innerHtml.toList) s.toList ↔ _ :=
    infix_replaceEach_iff fit_of_mem_findings hdetail
  rw [String.toList_ofList]
  refine ⟨hstands, fun before after hs hclear => hstands.mpr ?_⟩
  rw [hs]
  refine exists_mem_cutAll_of_clear (texts_ne_nil fit_of_mem_findings) fun find hfind => ?_
  obtain ⟨f, hf, rfl⟩ := List.mem_map.mp hfind
  exact hclear f hf

/-- A second address in a text with the first. -/
theorem mailAddresses_runBrand_second :
    (start "<p>a@x.com or b@y.org").document.body?.isSome = true ∧
      ∃ body', (start "<p>a@x.com or b@y.org").runBrand.document.body? = some body' ∧
        ∃ s' ∈ body'.element.children.textNodes, "b@y.org".toList <:+: s'.toList := by
  have hsome : (start "<p>a@x.com or b@y.org").document.body?.isSome = true := by decide +kernel
  have htexts : ∀ body ∈ (start "<p>a@x.com or b@y.org").document.body?,
      body.element.children.textNodes = ["a@x.com or b@y.org"] ∧
        (Contact.findings body.element.innerHtml.toList).map (·.text) = ["a@x.com".toList] := by
    decide +kernel
  obtain ⟨body, hbody⟩ := Option.isSome_iff_exists.mp hsome
  obtain ⟨body', hbody', -, hkept⟩ := mailAddresses_runBrand hbody
  obtain ⟨htext, hfound⟩ := htexts body hbody
  rw [htext, hfound] at hkept
  obtain ⟨s', rest, hfirst, -, hall⟩ := List.forall₂_cons_left_iff.mp hkept
  refine ⟨hsome, body', hbody', s', by simp [hall], ?_⟩
  exact (hfirst "b@y.org".toList (by decide +kernel)).1.mpr ⟨" or b@y.org".toList, by decide +kernel⟩

/-- An address that ends as the first one does is cut there. -/
theorem not_keepsAddresses : ¬ (start "<p>a@x.com</p><p>ba@x.com</p>").KeepsAddresses := by
  rw [KeepsAddresses]
  decide +kernel

/-! ### Images -/

/-- Every image in the body still has its address after the replacement. -/
def KeepsImages (a : Adaptation) : Prop :=
  ∀ body ∈ a.document.body?, ∀ body' ∈ a.runBrand.document.body?,
    List.Forall₂ (fun e e' : Element =>
      e.isTag "img" = true → e'.attribute? "src" = e.attribute? "src")
      body.element.children.elements body'.element.children.elements

theorem attribute?_rewrite_eq_iff {fs : List Finding} (hfs : ∀ f ∈ fs, f.Fit) (e : Element)
    (name : String) : (e.rewrite (replaceEach fs)).attribute? name = e.attribute? name ↔
      ∀ value ∈ e.attribute? name, ∀ f ∈ fs, ¬ f.text <:+: value.toList := by
  rw [Element.attribute?_rewrite]
  cases e.attribute? name with
  | none => simp
  | some value =>
    simp only [Option.map_some, Option.some.injEq, Option.mem_def, forall_eq']
    rw [← replaceEach_eq_self_iff hfs, ← String.toList_inj, String.toList_ofList]

/-- The address of an image stays if and only if nothing that is found in the markup is in it. -/
theorem imageAddresses_runBrand {a : Adaptation} {body : Visit} (hbody : a.document.body? = some body) :
    ∃ body', a.runBrand.document.body? = some body' ∧ body'.index = body.index ∧
      List.Forall₂ (fun e e' : Element => e'.tag = e.tag ∧ (e.isTag "img" = true →
        (e'.attribute? "src" = e.attribute? "src" ↔ ∀ src ∈ e.attribute? "src",
          ∀ f ∈ Contact.findings body.element.innerHtml.toList, ¬ f.text <:+: src.toList)))
        body.element.children.elements body'.element.children.elements := by
  obtain ⟨body', hbody', hindex, helement⟩ := body?_runBrand hbody
  refine ⟨body', hbody', hindex, ?_⟩
  rw [helement, Forest.elements_rewrite, List.forall₂_map_right_iff, List.forall₂_same]
  exact fun e _ => ⟨rfl, fun _ => attribute?_rewrite_eq_iff fit_of_mem_findings e "src"⟩

/-- An image beside the address of its sender. -/
theorem imageAddresses_runBrand_logo :
    (start "<img src=logo.png>a@x.com").document.body?.isSome = true ∧
      ∃ body', (start "<img src=logo.png>a@x.com").runBrand.document.body? = some body' ∧
        ∃ e' ∈ body'.element.children.elements, e'.attribute? "src" = some "logo.png" := by
  have hsome : (start "<img src=logo.png>a@x.com").document.body?.isSome = true := by decide +kernel
  have himages : ∀ body ∈ (start "<img src=logo.png>a@x.com").document.body?,
      body.element.children.elements = [⟨⟨.html, "img"⟩, [⟨.plain, "src", "logo.png"⟩], .nil⟩] ∧
        ∀ f ∈ Contact.findings body.element.innerHtml.toList, ¬ f.text <:+: "logo.png".toList := by
    decide +kernel
  obtain ⟨body, hbody⟩ := Option.isSome_iff_exists.mp hsome
  obtain ⟨body', hbody', -, hkept⟩ := imageAddresses_runBrand hbody
  obtain ⟨helements, hfound⟩ := himages body hbody
  rw [helements] at hkept
  obtain ⟨e', rest, ⟨-, hfirst⟩, -, hall⟩ := List.forall₂_cons_left_iff.mp hkept
  refine ⟨hsome, body', hbody', e', by simp [hall], ?_⟩
  refine ((hfirst (by decide +kernel)).mpr ?_).trans (by decide +kernel)
  intro src hsrc
  obtain rfl : src = "logo.png" := by simpa [Element.attribute?] using hsrc.symm
  exact hfound

/-- The name of a picture file for dense screens reads as a mail address. -/
theorem not_keepsImages : ¬ (start "<img src=logo@2x.png>").KeepsImages := by
  rw [KeepsImages]
  decide +kernel

end Adaptation

end EmailTemplate
