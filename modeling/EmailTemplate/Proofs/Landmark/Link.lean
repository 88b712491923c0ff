import EmailTemplate.Landmark.Cta
import EmailTemplate.Proofs.Text.Search
import EmailTemplate.Template.Token

/-! Which links look like calls to action, and how of several with one text and one address the first
is kept. -/

namespace EmailTemplate

open Html Template Text

namespace Html.Element

/-- The text and the address of a link that may be a call to action: it leads somewhere else than into
the page or to a mail address, and has from 1 to 100 characters of text. -/
structure LinkParts (e : Element) (text href : String) : Prop where
  address : e.attribute? "href" = some href
  trimmed : text.toList = e.trimmedText
  outward : href ≠ "" ∧ ¬ ['#'] <+: href.toList ∧ ¬ "mailto:".toList <+: href.toList
  length : 1 ≤ text.length ∧ text.length ≤ 100

theorem linkParts?_eq_some_iff {e : Element} {text href : String} :
    e.linkParts? = some (text, href) ↔ e.LinkParts text href := by
  simp only [linkParts?, Option.bind_eq_bind, Option.bind_eq_some_iff, Option.ite_none_left_eq_some,
    Bool.or_eq_true, begins_iff, not_or, decide_eq_true_eq, not_lt, Option.some.injEq, Prod.mk.injEq,
    List.isEmpty_iff, String.isEmpty_iff]
  constructor
  · rintro ⟨address, haddress, ⟨⟨hempty, hpage⟩, hmail⟩, ⟨hsome, hlength⟩, rfl, rfl⟩
    refine ⟨haddress, String.toList_ofList, ⟨hempty, hpage, hmail⟩, ?_⟩
    rw [String.length_ofList]
    exact ⟨List.length_pos_iff.mpr hsome, hlength⟩
  · rintro ⟨haddress, htrimmed, ⟨hempty, hpage, hmail⟩, hsome, hlength⟩
    rw [← String.length_toList, htrimmed] at hsome hlength
    refine ⟨href, haddress, ⟨⟨hempty, hpage⟩, hmail⟩, ⟨List.length_pos_iff.mp hsome, hlength⟩, ?_, rfl⟩
    rw [← htrimmed, String.ofList_toList]

end Html.Element

namespace Landmark

/-- A link that is a call to action: it has a text without a token and an address that leads outward,
and shows some sign of a button. -/
structure IsCall (v : Visit) (text href : String) : Prop where
  link : v.element.isTag "a" = true
  parts : v.element.LinkParts text href
  tokenless : ¬ openBraces <:+: text.toList
  button : isButton v = true

theorem candidate?_eq_some_iff {v : Visit} {c : Candidate} :
    candidate? v = some c ↔ IsCall v c.text c.href ∧ c.snapshot = v.element.outerHtml := by
  constructor
  · intro h
    rw [candidate?] at h
    split at h
    · next hlink =>
      obtain ⟨⟨text, href⟩, hparts, h⟩ := Option.bind_eq_some_iff.mp h
      simp only [Option.ite_none_left_eq_some, Option.ite_none_right_eq_some, occurs_iff,
        Option.some.injEq] at h
      obtain ⟨htokenless, hbutton, rfl⟩ := h
      exact ⟨⟨hlink, Element.linkParts?_eq_some_iff.mp hparts, htokenless, hbutton⟩, rfl⟩
    · simp at h
  · rintro ⟨⟨hlink, hparts, htokenless, hbutton⟩, hsnapshot⟩
    have hno : occurs ['\x7b', '\x7b'] c.text.toList = false :=
      Bool.eq_false_iff.mpr fun hi => htokenless (occurs_iff.mp hi)
    simp [candidate?, hlink, Element.linkParts?_eq_some_iff.mpr hparts, hno, hbutton, ← hsnapshot]

/-! ### The first of each kind -/

section FirstBy

variable {α β : Type} [DecidableEq β] {key : α → β} {as : List α} {a b : α}

theorem firstBy_sublist (key : α → β) (as : List α) : (firstBy key as).Sublist as := by
  induction as with
  | nil => exact .slnil
  | cons a as ih => exact (List.filter_sublist.trans ih).cons_cons a

theorem nodup_firstBy (key : α → β) (as : List α) : ((firstBy key as).map key).Nodup := by
  induction as with
  | nil => exact List.nodup_nil
  | cons a as ih =>
    rw [firstBy, List.map_cons, List.nodup_cons]
    refine ⟨?_, ih.sublist (List.filter_sublist.map key)⟩
    simp

theorem key_mem_firstBy (key : α → β) (h : a ∈ as) : key a ∈ (firstBy key as).map key := by
  induction as with
  | nil => exact absurd h List.not_mem_nil
  | cons b as ih =>
    by_cases hkey : key a = key b
    · rw [hkey]
      exact List.mem_cons_self
    · have hmem : a ∈ as := (List.mem_cons.mp h).resolve_left fun heq => hkey (congrArg key heq)
      obtain ⟨first, hfirst, heq⟩ := List.mem_map.mp (ih hmem)
      refine List.mem_map.mpr ⟨first, List.mem_cons_of_mem b (List.mem_filter.mpr ⟨hfirst, ?_⟩), heq⟩
      simpa [heq] using hkey

/-- What is kept stands before everything else with its key. -/
theorem rel_of_mem_firstBy {r : α → α → Prop} (hr : as.Pairwise r) (ha : a ∈ firstBy key as)
    (hb : b ∈ as) (hkey : key b = key a) : b = a ∨ r a b := by
  induction as with
  | nil => exact absurd hb List.not_mem_nil
  | cons first as ih =>
    obtain ⟨hfirst, hrest⟩ := List.pairwise_cons.mp hr
    rcases List.mem_cons.mp ha with rfl | ha
    · exact (List.mem_cons.mp hb).imp_right (hfirst b)
    · obtain ⟨ha, hne⟩ := List.mem_filter.mp ha
      rcases List.mem_cons.mp hb with rfl | hb
      · exact absurd hkey.symm (by simpa using hne)
      · exact ih hrest ha hb

theorem firstBy_map {γ : Type} (key : α → β) (g : γ → α) (cs : List γ) :
    firstBy key (cs.map g) = (firstBy (key ∘ g) cs).map g := by
  induction cs with
  | nil => rfl
  | cons c cs ih =>
    rw [List.map_cons, firstBy, firstBy, ih, List.map_cons, List.filter_map]
    rfl

end FirstBy

end Landmark

end EmailTemplate
