import EmailTemplate.Proofs.Adaptation.Stages

/-! What a stage leaves of the tokens that were put in before it, and under which condition all of them
still stand. -/

namespace EmailTemplate

open Html Template Text

/-- What holds of every member of a list when its turn comes. -/
def Turns {α β : Type} (step : α → β → α) (holds : α → β → Prop) : α → List β → Prop
  | _, [] => True
  | a, b :: bs => holds a b ∧ Turns step holds (step a b) bs

/-! ### Words in the texts of a document -/

/-- How many texts have the token of a word. -/
def Html.Forest.texts (f : Forest) (w : String) : Nat := f.tally (textsWith (token w.toList))

theorem text_textsWith_token (w : String) : (textsWith (token w.toList)).text (nameToken w) = 1 := by
  simp [textsWith, occurs_iff]

theorem Html.Forest.places_ne_zero {f : Forest} {w : String} (h : f.texts w ≠ 0) :
    f.places w ≠ 0 := by
  have hle := f.textsWith_le_placesOf (token w.toList)
  simp only [texts, places] at h ⊢
  omega

section SetText

variable {f : Forest} {i : Nat} {e : Element} (he : f.elementAt? i = some e)
include he

theorem texts_setText_self (w : String) : (f.setText i (nameToken w)).texts w ≠ 0 := by
  have hcount := Forest.tally_setText (m := textsWith (token w.toList)) he (nameToken w)
  have hle := Forest.tally_le_of_elementAt? (m := textsWith (token w.toList)) he
  rw [text_textsWith_token] at hcount
  simp only [Forest.texts, Element.tally] at hle ⊢
  omega

/-- A token outside the text of an element stays when the text is replaced. -/
theorem texts_le_setText {w : String} (hno : ¬ token w.toList <:+: e.textContent.toList)
    (s : String) : f.texts w ≤ (f.setText i s).texts w := by
  have hcount := Forest.tally_setText (m := textsWith (token w.toList)) he s
  have hnone : e.children.tally (textsWith (token w.toList)) = 0 := by
    by_contra hne
    exact hno (Forest.infix_textContent hne)
  simp only [Forest.texts]
  omega

end SetText

namespace Adaptation

/-- Every recorded word has its token in a text. -/
def Written (a : Adaptation) : Prop := ∀ w ∈ a.words, a.document.texts w ≠ 0

/-- Every recorded word has its token in a text or value. -/
def Standing (a : Adaptation) : Prop := ∀ w ∈ a.words, a.document.places w ≠ 0

theorem words_start (html : String) : (start html).words = [] := rfl

theorem of_mem_words_record_name {a : Adaptation} {p : Placeholder} {w : String}
    (hkind : p.kind ≠ .block) (h : w ∈ (a.record p).words) : w ∈ a.words ∨ w = p.name := by
  refine (of_mem_words_record h).imp_right fun hw => ?_
  rwa [Placeholder.words, if_neg hkind, List.mem_singleton] at hw

theorem Written.putToken {a : Adaptation} (ha : a.Written) {v : Visit} (name : String)
    (he : a.document.elementAt? v.index = some v.element)
    (hno : ∀ w ∈ a.words, ¬ token w.toList <:+: v.element.textContent.toList) :
    (a.putToken name v).Written := by
  intro w hw
  have hdocument : (a.putToken name v).document = a.document.setText v.index (nameToken name) := by
    rw [Adaptation.putToken, record_document]
  rw [hdocument]
  rcases of_mem_words_record_name (by simp) hw with hw | rfl
  · have hle := texts_le_setText he (hno w hw) (nameToken name)
    have hold := ha w hw
    omega
  · exact texts_setText_self he _

theorem Written.addHiddenLine {a : Adaptation} (ha : a.Written) {body : Visit}
    (he : a.document.elementAt? body.index = some body.element) :
    (a.addHiddenLine body).Written := by
  intro w hw
  have hdocument : (a.addHiddenLine body).document =
      a.document.prepend body.index (hiddenLine.followedBy .nil) := by
    rw [Adaptation.addHiddenLine, record_document]
  have hcount := Forest.tally_updateAt_children (m := textsWith (token w.toList)) he
    (hiddenLine.followedBy .nil).append
  have hold := Forest.tally_eq_outside (m := textsWith (token w.toList)) he
  rw [Forest.tally_append] at hcount
  rw [hdocument, Forest.texts, Forest.prepend, hcount]
  rcases of_mem_words_record_name (by simp) hw with hw | hname
  · have hne : a.document.tally (textsWith (token w.toList)) ≠ 0 := ha w hw
    omega
  · obtain rfl : w = "preheader" := hname
    have hline : (hiddenLine.followedBy .nil).tally (textsWith (token "preheader".toList)) ≠ 0 := by
      decide +kernel
    omega

/-! ### Preheader and title -/

theorem written_preheader (fallback : Bool) (html : String) :
    ((start html).runPreheader fallback).Written := by
  have hstart : (start html).Written := fun w hw => absurd hw (by simp [words_start])
  rw [runPreheader]
  split
  · next v hv =>
    exact hstart.putToken "preheader" (Landmark.elementAt?_of_preheader? hv).1
      fun w hw => absurd hw (by simp [words_start])
  · cases fallback with
    | false => exact hstart
    | true =>
      cases hbody : (start html).document.body? with
      | none => exact hstart
      | some body => exact hstart.addHiddenLine (Landmark.elementAt?_of_body? hbody).1

/-- The text of the title has no token that is there already. -/
def TitleSpares (a : Adaptation) : Prop :=
  ∀ v, Landmark.title? a.document = some v →
    ∀ w ∈ a.words, ¬ token w.toList <:+: v.element.textContent.toList

theorem Written.title {a : Adaptation} (ha : a.Written) (h : a.TitleSpares) : a.runTitle.Written := by
  rw [runTitle]
  split
  · next v hv => exact ha.putToken "title" (Landmark.elementAt?_of_title? hv).1 (h v hv)
  · exact ha

end Adaptation

/-! ### Calls to action -/

/-- Whether the token of a word stands where no call to action takes it away: in a text, or in a link
whose text is a token. -/
def Html.Forest.Holds (f : Forest) (w : String) : Prop :=
  f.texts w ≠ 0 ∨ ∃ e ∈ f.elements, (∃ s, e.children = .text s .nil ∧ openBraces <:+: s.toList) ∧
    ∃ a ∈ e.attributes, a.value = nameToken w

namespace Html.Forest

theorem Holds.places {f : Forest} {w : String} (h : f.Holds w) : f.places w ≠ 0 := by
  rcases h with h | ⟨e, he, -, a, ha, hvalue⟩
  · exact places_ne_zero h
  · have hle := tally_le_of_mem (m := placesOf (token w.toList)) he
    have hne : (placesOf (token w.toList)).attributes e.attributes ≠ 0 := by
      intro hzero
      refine attributes_placesOf_eq_zero.mp hzero a ha ?_
      rw [hvalue, toList_nameToken]
    simp only [Element.tally] at hle
    rw [Forest.places]
    omega

theorem Holds.replaceCta {f : Forest} {w : String} (h : f.Holds w) {c : Cta} (hc : c.Tokenless) :
    (f.replaceCta c).Holds w := by
  rcases h with h | ⟨e, he, ⟨s, hchildren, hs⟩, hvalue⟩
  · have hle := textsWith_le_replaceCta hc (openBraces_infix_token w.toList) f
    refine .inl ?_
    simp only [texts] at h ⊢
    omega
  · exact .inr ⟨e, mem_replaceCta hc hs hchildren he, ⟨s, hchildren, hs⟩, hvalue⟩

theorem holds_of_linked {f : Forest} {c : Cta} {e : Element} (he : e ∈ f.elements)
    (h : c.Linked e) : f.Holds c.textPlaceholder ∧ f.Holds c.urlPlaceholder := by
  obtain ⟨hchildren, hvalue⟩ := h
  refine ⟨.inl ?_, .inr ⟨e, he, ⟨_, hchildren, ?_⟩, hvalue⟩⟩
  · have hle := tally_le_of_mem (m := textsWith (token c.textPlaceholder.toList)) he
    rw [Element.tally, hchildren, tally, text_textsWith_token] at hle
    rw [texts]
    omega
  · rw [toList_nameToken]
    exact openBraces_infix_token _

end Html.Forest

namespace Adaptation

theorem addCta_document (a : Adaptation) (c : Cta) :
    (a.addCta c).document = a.document.replaceCta c := by
  rw [addCta, record_document, record_document]

theorem of_mem_words_addCta {a : Adaptation} {c : Cta} {w : String} (h : w ∈ (a.addCta c).words) :
    w ∈ a.words ∨ w = c.textPlaceholder ∨ w = c.urlPlaceholder := by
  rcases of_mem_words_record_name (by simp) h with h | h
  · rcases of_mem_words_record_name (by simp) h with h | h
    · exact .inl h
    · exact .inr (.inl h)
  · exact .inr (.inr h)

/-- Whether a call to action still has a link when its turn comes. -/
def HasLink (a : Adaptation) (c : Cta) : Prop := a.document.elements.any c.claims = true

theorem holds_addCta {a : Adaptation} {c : Cta} (hc : c.Tokenless) (hlink : a.HasLink c)
    (ha : ∀ w ∈ a.words, a.document.Holds w) :
    ∀ w ∈ (a.addCta c).words, (a.addCta c).document.Holds w := by
  intro w hw
  obtain ⟨e, he, hlinked⟩ := Forest.exists_linked hlink
  rw [addCta_document]
  rcases of_mem_words_addCta hw with hw | rfl | rfl
  · exact (ha w hw).replaceCta hc
  · exact (Forest.holds_of_linked he hlinked).1
  · exact (Forest.holds_of_linked he hlinked).2

theorem standing_foldl_addCta {a : Adaptation} {ctas : List Cta} (hctas : ∀ c ∈ ctas, c.Tokenless)
    (hlinks : Turns addCta HasLink a ctas) (ha : ∀ w ∈ a.words, a.document.Holds w) :
    (ctas.foldl addCta a).Standing := by
  induction ctas generalizing a with
  | nil => exact fun w hw => (ha w hw).places
  | cons c ctas ih =>
    exact ih (fun d hd => hctas d (List.mem_cons_of_mem c hd)) hlinks.2
      (holds_addCta (hctas c List.mem_cons_self) hlinks.1 ha)

/-- Every selected call to action has a link left when its turn comes. -/
def CtasSpare (strategy : CtaStrategy) (a : Adaptation) : Prop :=
  Turns addCta HasLink a (strategy.select (Landmark.ctas a.document))

theorem Written.ctas {strategy : CtaStrategy} {a : Adaptation} (ha : a.Written)
    (h : a.CtasSpare strategy) : (a.runCtas strategy).Standing :=
  standing_foldl_addCta (fun _ hc => (CtaStrategy.named_of_mem_select hc).1) h
    fun w hw => .inl (ha w hw)

/-- A call to action without a link leaves the document as it is. -/
theorem hasLink_of_places {a : Adaptation} {c : Cta}
    (hold : a.document.places c.textPlaceholder = 0)
    (hnew : (a.addCta c).document.places c.textPlaceholder ≠ 0) : a.HasLink c := by
  by_contra hno
  rw [addCta_document, Forest.replaceCta_of_unclaimed (Bool.eq_false_iff.mpr hno)] at hnew
  exact hnew hold

theorem places_addCta_eq_zero {a : Adaptation} {c : Cta} {stem : String} (hc : c.Named stem)
    {w : String} (hw : Inner w) (htext : w ≠ c.textPlaceholder) (hurl : w ≠ c.urlPlaceholder)
    (h : a.document.places w = 0) : (a.addCta c).document.places w = 0 := by
  rw [addCta_document]
  exact Forest.placesOf_replaceCta_eq_zero hw.braceFree hc.puts.1.1.braceFree
    hc.puts.2.1.braceFree (fun he => htext (String.toList_inj.mp he))
    (fun he => hurl (String.toList_inj.mp he)) h

theorem places_foldl_addCta_eq_zero {ctas : List Cta} (hctas : ∀ c ∈ ctas, ∃ stem, c.Named stem)
    {w : String} (hw : Inner w) (htext : ∀ c ∈ ctas, w ≠ c.textPlaceholder)
    (hurl : ∀ c ∈ ctas, w ≠ c.urlPlaceholder) {a : Adaptation} (h : a.document.places w = 0) :
    (ctas.foldl addCta a).document.places w = 0 := by
  induction ctas generalizing a with
  | nil => exact h
  | cons c ctas ih =>
    obtain ⟨stem, hc⟩ := hctas c List.mem_cons_self
    refine ih (fun d hd => hctas d (List.mem_cons_of_mem c hd))
      (fun d hd => htext d (List.mem_cons_of_mem c hd))
      (fun d hd => hurl d (List.mem_cons_of_mem c hd)) ?_
    exact places_addCta_eq_zero hc hw (htext c List.mem_cons_self) (hurl c List.mem_cons_self) h

/-- If the names of all calls to action are new and stand in the end, each had a link. -/
theorem turns_of_places {ctas : List Cta} (hctas : ∀ c ∈ ctas, ∃ stem, c.Named stem)
    (hnodup : (ctas.map (·.textPlaceholder)).Nodup) {a : Adaptation}
    (hold : ∀ c ∈ ctas, a.document.places c.textPlaceholder = 0)
    (hnew : ∀ c ∈ ctas, (ctas.foldl addCta a).document.places c.textPlaceholder ≠ 0) :
    Turns addCta HasLink a ctas := by
  induction ctas generalizing a with
  | nil => trivial
  | cons c ctas ih =>
    rw [List.map_cons, List.nodup_cons] at hnodup
    obtain ⟨stem, hc⟩ := hctas c List.mem_cons_self
    have hrest : ∀ d ∈ ctas, ∃ stem, d.Named stem :=
      fun d hd => hctas d (List.mem_cons_of_mem c hd)
    have hne : ∀ d ∈ ctas, d.textPlaceholder ≠ c.textPlaceholder :=
      fun d hd he => hnodup.1 (he ▸ List.mem_map_of_mem hd)
    have hlink : a.HasLink c := by
      refine hasLink_of_places (hold c List.mem_cons_self) fun hzero => ?_
      refine hnew c List.mem_cons_self ?_
      refine places_foldl_addCta_eq_zero hrest hc.puts.1.1 (fun d hd he => hne d hd he.symm) ?_ hzero
      intro d hd
      obtain ⟨stem', hd⟩ := hrest d hd
      exact hc.text_ne_url hd
    refine ⟨hlink, ih hrest hnodup.2 (fun d hd => ?_) fun d hd => ?_⟩
    · obtain ⟨stem', hd'⟩ := hrest d hd
      exact places_addCta_eq_zero hc hd'.puts.1.1 (hne d hd) (hd'.text_ne_url hc)
        (hold d (List.mem_cons_of_mem c hd))
    · exact hnew d (List.mem_cons_of_mem c hd)

end Adaptation

/-! ### Blocks -/

theorem places_token_text (w : String) : (placesOf (token w.toList)).text (nameToken w) = 1 := by
  rw [text_placesOf_eq_one]
  rw [toList_nameToken]

namespace Adaptation

theorem Standing.addBlock {a : Adaptation} (ha : a.Standing) {b : Landmark.Block}
    (hindex : b.visit.index < a.document.count) : (a.addBlock b).Standing := by
  intro w hw
  obtain ⟨e, he⟩ := Forest.exists_elementAt? hindex
  have hdocument : (a.addBlock b).document = a.document.wrap b.visit.index b.name := by
    rw [Adaptation.addBlock, record_document]
  rw [hdocument, Forest.places, Forest.tally_wrap he, ofList_sectionOpener, ofList_sectionCloser]
  rcases of_mem_words_record hw with hw | hw
  · have hold : a.document.tally (placesOf (token w.toList)) ≠ 0 := ha w hw
    omega
  · simp only [Placeholder.words, if_true, List.mem_cons, List.not_mem_nil, or_false] at hw
    rcases hw with rfl | rfl
    · rw [places_token_text]
      omega
    · rw [places_token_text]
      omega

theorem standing_foldl_addBlock {a : Adaptation} {blocks : List Landmark.Block}
    (hblocks : ∀ b ∈ blocks, b.visit.index < a.document.count) (ha : a.Standing) :
    (blocks.foldl addBlock a).Standing := by
  induction blocks generalizing a with
  | nil => exact ha
  | cons b blocks ih =>
    refine ih (fun c hc => ?_) (ha.addBlock (hblocks b List.mem_cons_self))
    rw [count_addBlock]
    exact hblocks c (List.mem_cons_of_mem b hc)

theorem Standing.blocks {a : Adaptation} (ha : a.Standing) (names : List String) :
    (a.runBlocks names).Standing :=
  standing_foldl_addBlock (fun _ hb => (Landmark.of_mem_blocks hb).2) ha

/-! ### Contacts -/

theorem replaceFound_cases (a : Adaptation) (index : Nat) (markup : List Char) (contact : Contact) :
    a.replaceFound index markup contact = a ∨
      ∃ found e, contact.pattern.find? markup = some found ∧ a.occurrences index found ≠ 0 ∧
        a.document.elementAt? index = some e ∧ e.children.countLiteral found ≠ 0 ∧
        (a.replaceFound index markup contact).document = (a.document.updateAt index fun e =>
          { e with children := e.children.replaceLiteral found (token contact.placeholder.toList) }) ∧
        ∀ w ∈ (a.replaceFound index markup contact).words, w ∈ a.words ∨ w = contact.placeholder := by
  rw [replaceFound]
  cases hfound : contact.pattern.find? markup with
  | none => exact .inl rfl
  | some found =>
    rw [Option.elim_some, replaceContact]
    split
    · exact .inl rfl
    · next hcount =>
      obtain ⟨e, he, hliteral⟩ := elementAt?_of_occurrences hcount
      refine .inr ⟨found, e, rfl, hcount, he, hliteral ▸ hcount, record_document _ _, fun w hw => ?_⟩
      exact of_mem_words_record_name (by simp) hw

/-- Whether a word that has the contact to be replaced inside stands outside the element too. -/
def Leaves (base : Adaptation) (index : Nat) (markup : List Char) (a : Adaptation)
    (contact : Contact) : Prop :=
  ∀ found, contact.pattern.find? markup = some found → a.occurrences index found ≠ 0 →
    ∀ w ∈ base.words, found <:+: w.toList → (base.document.outside index).places w ≠ 0

/-- What comes of an adaptation by changes inside an element, with names of contacts recorded. -/
structure Within (base : Adaptation) (index : Nat) (a : Adaptation) : Prop where
  outside : ∀ w, (a.document.outside index).places w = (base.document.outside index).places w
  words : ∀ w ∈ a.words, w ∈ base.words ∨ Contact.Name w

theorem Within.refl (a : Adaptation) (index : Nat) : Within a index a :=
  ⟨fun _ => rfl, fun _ hw => .inl hw⟩

section Contacts

variable {base a : Adaptation} {index : Nat} {markup : List Char} {contact : Contact}
  (hcontact : contact ∈ Contact.all)
include hcontact

theorem Within.replaceFound (h : Within base index a) :
    Within base index (a.replaceFound index markup contact) := by
  rcases replaceFound_cases a index markup contact with heq | ⟨found, e, -, -, he, -, hdocument, hwords⟩
  · rwa [heq]
  · refine ⟨fun w => ?_, fun w hw => ?_⟩
    · rw [hdocument, ← h.outside w]
      exact Forest.tally_outside_updateAt he fun f => f.replaceLiteral found _
    · rcases hwords w hw with hw | rfl
      · exact h.words w hw
      · exact .inr ⟨contact, hcontact, rfl⟩

theorem Standing.replaceFound (hin : Within base index a) (ha : a.Standing)
    (hleaves : base.Leaves index markup a contact) :
    (a.replaceFound index markup contact).Standing := by
  rcases replaceFound_cases a index markup contact with
    heq | ⟨found, e, hfound, hcount, he, hliteral, hdocument, hwords⟩
  · rwa [heq]
  · have hdetail := Contact.detail_of_find? hcontact hfound
    intro w hw
    have hplaces := Forest.tally_updateAt_children (m := placesOf (token w.toList)) he fun f =>
      f.replaceLiteral found (token contact.placeholder.toList)
    rw [hdocument, Forest.places, hplaces]
    rcases hwords w hw with hw | rfl
    · by_cases hi : found <:+: w.toList
      · have hold : w ∈ base.words := by
          refine (hin.words w hw).resolve_right ?_
          rintro ⟨other, hother, rfl⟩
          exact hdetail.not_infix_placeholder hother hi
        have hout := hleaves found hfound hcount w hold hi
        rw [← hin.outside w, Forest.places] at hout
        omega
      · have hle := Forest.placesOf_le_replaceLiteral hdetail.ne_nil hdetail.1 hi
          (token contact.placeholder.toList) e.children
        have hold : a.document.tally (placesOf (token w.toList)) ≠ 0 := ha w hw
        rw [Forest.tally_eq_outside he] at hold
        omega
    · have hput := Forest.placesOf_put_ne_zero hdetail.ne_nil (token contact.placeholder.toList) hliteral
      omega

/-- A word that has the contact inside and does not stand outside the element is lost. -/
theorem places_replaceFound_eq_zero (hin : Within base index a) {found : List Char}
    (hfound : contact.pattern.find? markup = some found) (hcount : a.occurrences index found ≠ 0)
    {w : String} (hw : Inner w) (hi : found <:+: w.toList)
    (hout : (base.document.outside index).places w = 0) :
    (a.replaceFound index markup contact).document.places w = 0 := by
  have hdetail := Contact.detail_of_find? hcontact hfound
  have hname : Inner contact.placeholder := (Contact.Name.puts ⟨contact, hcontact, rfl⟩).1
  have hne : w.toList ≠ contact.placeholder.toList :=
    fun he => hdetail.not_infix_placeholder hcontact (he ▸ hi)
  obtain ⟨e, he, -⟩ := elementAt?_of_occurrences hcount
  have hplaces := Forest.tally_updateAt_children (m := placesOf (token w.toList)) he fun f =>
    f.replaceLiteral found (token contact.placeholder.toList)
  have hnone := Forest.placesOf_replaceLiteral_eq_zero (f := e.children) hdetail.ne_nil hw.braceFree
    hname.braceFree hne (.inr hi)
  rw [← hin.outside w, Forest.places] at hout
  have hdocument : (a.replaceFound index markup contact).document = (a.document.updateAt index fun e =>
      { e with children := e.children.replaceLiteral found (token contact.placeholder.toList) }) := by
    rw [Adaptation.replaceFound, hfound, Option.elim_some, replaceContact, if_neg hcount]
    exact record_document _ _
  rw [hdocument, Forest.places]
  omega

end Contacts

theorem standing_foldl_replaceFound {base : Adaptation} {index : Nat} {markup : List Char}
    {contacts : List Contact} (hall : ∀ contact ∈ contacts, contact ∈ Contact.all) {a : Adaptation}
    (hin : Within base index a) (ha : a.Standing)
    (hleaves : Turns (replaceFound index markup) (base.Leaves index markup) a contacts) :
    (contacts.foldl (replaceFound index markup) a).Standing := by
  induction contacts generalizing a with
  | nil => exact ha
  | cons contact contacts ih =>
    have hcontact := hall contact List.mem_cons_self
    exact ih (fun other hother => hall other (List.mem_cons_of_mem contact hother))
      (hin.replaceFound hcontact) (ha.replaceFound hcontact hin hleaves.1) hleaves.2

/-- A word that has a contact of the body inside stands outside the content of the body too. -/
def ContactsSpare (a : Adaptation) : Prop :=
  ∀ body, a.document.body? = some body →
    let markup := body.element.innerHtml.toList
    Turns (replaceFound body.index markup) (a.Leaves body.index markup) a Contact.all

theorem Standing.brand {a : Adaptation} (ha : a.Standing) (h : a.ContactsSpare) :
    a.runBrand.Standing := by
  rw [runBrand]
  split
  · exact ha
  · next body hbody =>
    exact standing_foldl_replaceFound (fun _ hc => hc) (.refl a _) ha (h body hbody)

theorem turns_of_standing {base : Adaptation} {index : Nat} {markup : List Char}
    {contacts : List Contact} (hall : ∀ contact ∈ contacts, contact ∈ Contact.all)
    (hwords : ∀ w ∈ base.words, Inner w) {a : Adaptation} (hin : Within base index a)
    (hend : ∀ w ∈ base.words, (contacts.foldl (replaceFound index markup) a).document.places w ≠ 0) :
    Turns (replaceFound index markup) (base.Leaves index markup) a contacts := by
  induction contacts generalizing a with
  | nil => trivial
  | cons contact contacts ih =>
    have hcontact := hall contact List.mem_cons_self
    have hrest := fun other hother => hall other (List.mem_cons_of_mem contact hother)
    refine ⟨fun found hfound hcount w hw hi hout => hend w hw ?_, ih hrest (hin.replaceFound hcontact) hend⟩
    have hlost := places_replaceFound_eq_zero hcontact hin hfound hcount (hwords w hw) hi hout
    have hgrows : Grows Contact.Name (a.replaceFound index markup contact)
        (contacts.foldl (replaceFound index markup) (a.replaceFound index markup contact)) :=
      Grows.foldl fun b other hother =>
        (moves_replaceFound (hrest other hother) _ _ b).grows Placeholder.Value.of_mem_words
    refine hgrows.edits.places_eq_zero (fun x hx => hx.puts.1) (hwords w hw) ?_ hlost
    rintro ⟨other, hother, rfl⟩
    exact (Contact.detail_of_find? hcontact hfound).not_infix_placeholder hother hi

theorem contactsSpare_of_places {a : Adaptation} (hwords : ∀ w ∈ a.words, Inner w)
    (hend : ∀ w ∈ a.words, a.runBrand.document.places w ≠ 0) : a.ContactsSpare := by
  intro body hbody markup
  rw [runBrand, hbody] at hend
  exact turns_of_standing (fun _ hc => hc) hwords (.refl a _) hend

/-! ### Comments -/

theorem Standing.comments {a : Adaptation} (ha : a.Standing) (preserve : Bool) :
    (a.runComments preserve).Standing := by
  rw [runComments]
  split
  · exact ha
  · intro w hw
    rw [Forest.places, Forest.tally_stripComments]
    exact ha w hw

end Adaptation

end EmailTemplate
