import EmailTemplate.Proofs.Html.Markup
import EmailTemplate.Proofs.Text.Blank

/-! Links that become calls to action. A link with a token in its text is claimed by no call to action,
so what one of them puts in stays when the next one is replaced. -/

namespace EmailTemplate

open Html Template Text

def Cta.Tokenless (c : Cta) : Prop := ¬ openBraces <:+: c.text.toList

/-- Whether an element is a link with the tokens of a call to action. -/
def Cta.Linked (c : Cta) (e : Element) : Prop :=
  e.children = .text (nameToken c.textPlaceholder) .nil ∧
    ∃ a ∈ e.attributes, a.value = nameToken c.urlPlaceholder

theorem openBraces_infix_token (v : List Char) : openBraces <:+: token v :=
  ⟨[], v ++ closeBraces, by simp [token]⟩

theorem Cta.Tokenless.textContent {c : Cta} (hc : c.Tokenless) {e : Element}
    (h : c.claims e = true) : ¬ openBraces <:+: e.textContent.toList := by
  simp only [claims, Bool.and_eq_true, beq_iff_eq] at h
  intro hi
  have hbraces : ∀ b ∈ openBraces, isBlank b = false := by
    intro b hb
    obtain rfl : b = '{' := by simpa [openBraces] using hb
    decide
  have htrim : openBraces <:+: e.trimmedText := infix_trim hbraces hi
  rw [h.2] at htrim
  exact hc htrim

theorem exists_mem_setAttribute {name value : String} {as : List Attribute}
    (h : ∃ a ∈ as, a.name = name) : ∃ a ∈ setAttribute name value as, a.value = value := by
  induction as with
  | nil => simp at h
  | cons a as ih =>
    rw [setAttribute]
    split
    · exact ⟨_, List.mem_cons_self, rfl⟩
    · next hne =>
      obtain ⟨b, hb, hname⟩ := h
      rcases List.mem_cons.mp hb with rfl | hb
      · exact absurd hname hne
      · obtain ⟨x, hx, hvalue⟩ := ih ⟨b, hb, hname⟩
        exact ⟨x, List.mem_cons_of_mem a hx, hvalue⟩

theorem of_mem_setAttribute {name value : String} {as : List Attribute} {a : Attribute}
    (h : a ∈ setAttribute name value as) :
    a ∈ as ∨ (a.value = value ∧ ∃ b ∈ as, a.name = b.name) := by
  induction as with
  | nil => exact .inl h
  | cons b as ih =>
    rw [setAttribute] at h
    split at h
    · rcases List.mem_cons.mp h with rfl | h
      · exact .inr ⟨rfl, b, List.mem_cons_self, rfl⟩
      · exact .inl (List.mem_cons_of_mem b h)
    · rcases List.mem_cons.mp h with rfl | h
      · exact .inl List.mem_cons_self
      · refine (ih h).imp (List.mem_cons_of_mem b) fun ⟨hvalue, x, hx, hname⟩ => ?_
        exact ⟨hvalue, x, List.mem_cons_of_mem b hx, hname⟩

theorem Cta.exists_attribute {c : Cta} {e : Element} (h : c.claims e = true) :
    ∃ a ∈ e.attributes, a.name = "href" := by
  simp only [claims, Bool.and_eq_true, beq_iff_eq, Element.attribute?, Option.map_eq_some_iff] at h
  obtain ⟨⟨-, a, ha, -⟩, -⟩ := h
  exact ⟨a, List.mem_of_find?_eq_some ha, by simpa using List.find?_some ha⟩

namespace Html.Forest

variable {c : Cta}

theorem replaceCta_of_unclaimed {f : Forest} (h : f.elements.any c.claims = false) :
    f.replaceCta c = f := by
  induction f with
  | nil => rfl
  | text s rest ih => exact congrArg (text s) (ih h)
  | comment s rest ih => exact congrArg (comment s) (ih h)
  | doctype name rest ih => exact congrArg (doctype name) (ih h)
  | element tag attributes children rest ihc ihr =>
    simp only [elements, List.any_cons, List.any_append, Bool.or_eq_false_iff] at h
    rw [replaceCta, h.1, ihc h.2.1, ihr h.2.2]
    rfl

/-- Of links inside each other the outermost that is claimed gets the tokens. -/
theorem exists_linked {f : Forest} (h : f.elements.any c.claims = true) :
    ∃ e ∈ (f.replaceCta c).elements, c.Linked e := by
  induction f with
  | nil => simp [elements] at h
  | text s rest ih => exact ih h
  | comment s rest ih => exact ih h
  | doctype name rest ih => exact ih h
  | element tag attributes children rest ihc ihr =>
    rw [replaceCta]
    split
    · next hclaims =>
      exact ⟨_, List.mem_cons_self, rfl, exists_mem_setAttribute (Cta.exists_attribute hclaims)⟩
    · next hno =>
      simp only [elements, List.any_cons, List.any_append, Bool.or_eq_true] at h
      rcases h with h | h | h
      · exact absurd h hno
      · obtain ⟨e, he, hlinked⟩ := ihc h
        exact ⟨e, List.mem_cons_of_mem _ (List.mem_append_left _ he), hlinked⟩
      · obtain ⟨e, he, hlinked⟩ := ihr h
        exact ⟨e, List.mem_cons_of_mem _ (List.mem_append_right _ he), hlinked⟩

/-- No element around a token is claimed. -/
theorem mem_replaceCta (hc : c.Tokenless) {s : String} (hs : openBraces <:+: s.toList) {f : Forest}
    {e : Element} (hchildren : e.children = text s nil) (he : e ∈ f.elements) :
    e ∈ (f.replaceCta c).elements := by
  have hcontent : openBraces <:+: e.textContent.toList := by
    simpa [Element.textContent, hchildren, textContent] using hs
  induction f with
  | nil => simp [elements] at he
  | text s rest ih => exact ih he
  | comment s rest ih => exact ih he
  | doctype name rest ih => exact ih he
  | element tag attributes children rest ihc ihr =>
    simp only [elements, List.mem_cons, List.mem_append] at he
    have hkept : (e = ⟨tag, attributes, children⟩ ∨ e ∈ children.elements) →
        c.claims ⟨tag, attributes, children⟩ = false := by
      intro h
      refine Bool.eq_false_iff.mpr fun hclaims => hc.textContent hclaims ?_
      rcases h with rfl | h
      · exact hcontent
      · exact hcontent.trans (textContent_infix_of_mem h)
    rw [replaceCta]
    rcases he with rfl | he | he
    · simp only at hchildren
      rw [hkept (.inl rfl), hchildren]
      exact List.mem_cons_self
    · rw [hkept (.inr he)]
      exact List.mem_cons_of_mem _ (List.mem_append_left _ (ihc he))
    · split
      · exact List.mem_cons_of_mem _ (List.mem_append_right _ (ihr he))
      · exact List.mem_cons_of_mem _ (List.mem_append_right _ (ihr he))

theorem textsWith_le_replaceCta (hc : c.Tokenless) {w : List Char} (hw : openBraces <:+: w)
    (f : Forest) : f.tally (textsWith w) ≤ (f.replaceCta c).tally (textsWith w) := by
  induction f with
  | nil => exact Nat.le_refl _
  | text s rest ih => exact Nat.add_le_add_left ih _
  | comment s rest ih => exact ih
  | doctype name rest ih => exact ih
  | element tag attributes children rest ihc ihr =>
    rw [replaceCta]
    split
    · next hclaims =>
      have hnone : children.tally (textsWith w) = 0 := by
        by_contra hne
        exact hc.textContent hclaims (hw.trans (infix_textContent hne))
      simp only [tally, textsWith] at hnone ihr ⊢
      omega
    · exact Nat.add_le_add (Nat.add_le_add_left ihc _) ihr

/-- Replacement puts in no tokens but its own two. -/
theorem placesOf_replaceCta_eq_zero {v : List Char} (hv : BraceFree v)
    (htext : BraceFree c.textPlaceholder.toList) (hurl : BraceFree c.urlPlaceholder.toList)
    (hnotext : v ≠ c.textPlaceholder.toList) (hnourl : v ≠ c.urlPlaceholder.toList) {f : Forest}
    (h : f.tally (placesOf (token v)) = 0) : (f.replaceCta c).tally (placesOf (token v)) = 0 := by
  have hno : ∀ name : String, BraceFree name.toList → v ≠ name.toList →
      ¬ token v <:+: (nameToken name).toList := by
    intro name hname hne
    rw [nameToken, String.toList_ofList, token_infix_token_iff hv hname]
    exact hne
  induction f with
  | nil => rfl
  | text s rest ih =>
    obtain ⟨hs, hr⟩ := Nat.add_eq_zero_iff.mp h
    exact Nat.add_eq_zero_iff.mpr ⟨hs, ih hr⟩
  | comment s rest ih => exact ih h
  | doctype name rest ih => exact ih h
  | element tag attributes children rest ihc ihr =>
    obtain ⟨h, hr⟩ := Nat.add_eq_zero_iff.mp h
    obtain ⟨ha, hin⟩ := Nat.add_eq_zero_iff.mp h
    rw [replaceCta]
    split
    · have hvalues := attributes_placesOf_eq_zero.mp ha
      have hattributes : (placesOf (token v)).attributes
          (setAttribute "href" (nameToken c.urlPlaceholder) attributes) = 0 := by
        refine attributes_placesOf_eq_zero.mpr fun a hmem => ?_
        rcases of_mem_setAttribute hmem with hold | ⟨hvalue, -⟩
        · exact hvalues a hold
        · rw [hvalue]
          exact hno _ hurl hnourl
      simp only [tally, hattributes, ihr hr, text_placesOf_eq_zero.mpr (hno _ htext hnotext)]
    · simp only [tally, ha, ihc hin, ihr hr]

end Html.Forest

end EmailTemplate
