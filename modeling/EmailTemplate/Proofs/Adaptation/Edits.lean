import EmailTemplate.Proofs.Adaptation.Links
import EmailTemplate.Proofs.Contact
import Mathlib.Logic.Relation

/-! The edits that turn a document into a template. Each puts in tokens of some words, and brings no
other token into the document. -/

namespace EmailTemplate

open Html Template Text

/-! ### What stands in a token -/

def isInner (c : Char) : Bool := isAsciiAlphanumeric c || "_-.#/:".toList.contains c

/-- A word that may stand between the braces of a token. -/
def Inner (w : String) : Prop := ∀ c ∈ w.toList, isInner c = true

instance (w : String) : Decidable (Inner w) := List.decidableBAll _ w.toList

theorem isInner_spec {c : Char} (h : isInner c = true) :
    isBrace c = false ∧ escapeTextChar c = [c] ∧ escapeAttributeChar c = [c] := by
  rcases Bool.or_eq_true_iff.mp h with h | h
  · refine ⟨?_, escape_alphanumeric h⟩
    have hopen : c ≠ '{' := by rintro rfl; revert h; decide
    have hclose : c ≠ '}' := by rintro rfl; revert h; decide
    simp [isBrace, hopen, hclose]
  · have hmarks : "_-.#/:".toList.all (fun c =>
        isBrace c = false ∧ escapeTextChar c = [c] ∧ escapeAttributeChar c = [c]) = true := by decide
    exact of_decide_eq_true (List.all_eq_true.mp hmarks c (List.contains_iff_mem.mp h))

namespace Inner

variable {w x : String}

theorem append (hw : Inner w) (hx : Inner x) : Inner (w ++ x) := by
  rw [Inner, String.toList_append]
  exact List.forall_mem_append.mpr ⟨hw, hx⟩

theorem braceFree (hw : Inner w) : BraceFree w.toList := fun c hc => (isInner_spec (hw c hc)).1

theorem ampersand_not_mem (hw : Inner w) : '&' ∉ w.toList := fun h => absurd (hw _ h) (by decide)

theorem plain (hw : Inner w) : Plain (token w.toList) := by
  have hopen : escapeTextChar '{' = ['{'] ∧ escapeAttributeChar '{' = ['{'] := by decide
  have hclose : escapeTextChar '}' = ['}'] ∧ escapeAttributeChar '}' = ['}'] := by decide
  intro c hc
  simp only [token, openBraces, closeBraces, List.mem_append, List.mem_cons, List.not_mem_nil,
    or_false, or_self] at hc
  rcases hc with (rfl | hc) | rfl
  · exact hopen
  · exact (isInner_spec (hw c hc)).2
  · exact hclose

end Inner

@[simp]
theorem toList_nameToken (w : String) : (nameToken w).toList = token w.toList :=
  String.toList_ofList

theorem ofList_sectionOpener (name : String) :
    String.ofList (sectionOpener name.toList) = nameToken ("#block:" ++ name) := by
  rw [nameToken, String.toList_append]
  rfl

theorem ofList_sectionCloser (name : String) :
    String.ofList (sectionCloser name.toList) = nameToken ("/block:" ++ name) := by
  rw [nameToken, String.toList_append]
  rfl

/-- How many texts and values have the token of a word. -/
def Html.Forest.places (f : Forest) (w : String) : Nat := f.tally (placesOf (token w.toList))

theorem text_token_eq_zero {w x : String} (hw : Inner w) (hx : Inner x) (hne : w ≠ x) :
    (placesOf (token w.toList)).text (nameToken x) = 0 := by
  rw [text_placesOf_eq_zero, toList_nameToken, token_infix_token_iff hw.braceFree hx.braceFree]
  exact fun h => hne (String.toList_inj.mp h)

/-! ### Edits -/

/-- An edit that puts in tokens of some words alone. -/
inductive Edit (words : String → Prop) : Forest → Forest → Prop
  | content {f : Forest} {i : Nat} {e : Element} {w : String} (he : f.elementAt? i = some e)
      (hne : e.children ≠ .nil) (hw : words w) : Edit words f (f.setText i (nameToken w))
  | line {f : Forest} {i : Nat} {e : Element} (he : f.elementAt? i = some e)
      (hbody : e.isTag "body" = true) (hw : words "preheader") :
      Edit words f (f.prepend i (Adaptation.hiddenLine.followedBy .nil))
  | link {f : Forest} {c : Cta} (htext : words c.textPlaceholder) (hurl : words c.urlPlaceholder) :
      Edit words f (f.replaceCta c)
  | block {f : Forest} {i : Nat} {e : Element} {name : String} (he : f.elementAt? i = some e)
      (hopener : words ("#block:" ++ name)) (hcloser : words ("/block:" ++ name)) :
      Edit words f (f.wrap i name)
  | contact {f : Forest} {i : Nat} {e : Element} {w : String} {found : List Char}
      (he : f.elementAt? i = some e) (hfound : Contact.Detail found) (hname : Contact.Name w)
      (hw : words w) :
      Edit words f (f.updateAt i fun e =>
        { e with children := e.children.replaceLiteral found (token w.toList) })
  | comments {f : Forest} : Edit words f f.stripComments

abbrev Edits (words : String → Prop) := Relation.ReflTransGen (Edit words)

theorem Edit.mono {words words' : String → Prop} (hsub : ∀ w, words w → words' w) {f g : Forest}
    (h : Edit words f g) : Edit words' f g := by
  cases h with
  | content he hne hw => exact .content he hne (hsub _ hw)
  | line he hbody hw => exact .line he hbody (hsub _ hw)
  | link htext hurl => exact .link (hsub _ htext) (hsub _ hurl)
  | block he hopener hcloser => exact .block he (hsub _ hopener) (hsub _ hcloser)
  | contact he hfound hname hw => exact .contact he hfound hname (hsub _ hw)
  | comments => exact .comments

theorem Edits.mono {words words' : String → Prop} (hsub : ∀ w, words w → words' w) {f g : Forest}
    (h : Edits words f g) : Edits words' f g := by
  have hle : Edit words ≤ Edit words' := fun _ _ hedit => hedit.mono hsub
  exact Relation.ReflTransGen.mono hle _ _ h

/-! ### Rules that edits keep -/

/-- A rule that admits the tokens of some words, in the text and values of elements that may have
content. -/
structure Html.Rule.Open (r : Rule) (words : String → Prop) : Prop where
  token : ∀ w, words w → r.text (nameToken w)
  replaced : ∀ found w s, Contact.Detail found → Contact.Name w → words w → r.text s →
    r.text (String.ofList (replaceAll found (Template.token w.toList) s.toList))
  href : ∀ w tag as, words w → r.tag tag as → r.tag tag (setAttribute "href" (nameToken w) as)
  values : ∀ found w tag as, Contact.Detail found → Contact.Name w → words w → r.tag tag as →
    r.tag tag (replaceInValues found (Template.token w.toList) as)
  line : r.tag Adaptation.hiddenLine.tag Adaptation.hiddenLine.attributes
  filled : ∀ tag : Tag, tag.isVoid = false → r.filled tag

theorem open_voidsEmpty (words : String → Prop) : Rule.voidsEmpty.Open words where
  token _ _ := trivial
  replaced _ _ _ _ _ _ _ := trivial
  href _ _ _ _ _ := trivial
  values _ _ _ _ _ _ _ _ := trivial
  line := trivial
  filled _ h := h

theorem hiddenLine_braceFree :
    Rule.braceFree.tag Adaptation.hiddenLine.tag Adaptation.hiddenLine.attributes := by
  refine ⟨by decide, fun a ha => ?_⟩
  obtain rfl := List.mem_singleton.mp ha
  exact ⟨by decide, by decide +kernel⟩

/-- Texts of one kind may stand where tokens do, if the tokens are of that kind. -/
theorem open_texts {C : List Char → Prop} {words : String → Prop}
    (hfree : ∀ u, BraceFree u → C u) (htoken : ∀ w, words w → C (token w.toList))
    (hreplace : ∀ found w s, Contact.Detail found → Contact.Name w → words w → C s →
      C (replaceAll found (token w.toList) s)) : (Rule.texts C).Open words where
  token w hw := by
    simp only [Rule.texts, toList_nameToken]
    exact htoken w hw
  replaced found w s hfound hname hw hs := by
    simp only [Rule.texts, String.toList_ofList]
    exact hreplace found w s.toList hfound hname hw hs
  href w tag as hw h := by
    refine ⟨h.1, fun a ha => ?_⟩
    rcases of_mem_setAttribute ha with ha | ⟨hvalue, b, hb, hname⟩
    · exact h.2 a ha
    · rw [hvalue, hname, toList_nameToken]
      exact ⟨(h.2 b hb).1, htoken w hw⟩
  values found w tag as hfound hname hw h := by
    refine ⟨h.1, fun a ha => ?_⟩
    obtain ⟨b, hb, rfl⟩ := List.mem_map.mp ha
    simp only [String.toList_ofList]
    exact ⟨(h.2 b hb).1, hreplace found w _ hfound hname hw (h.2 b hb).2⟩
  line := by
    obtain ⟨htag, hall⟩ := hiddenLine_braceFree
    exact ⟨htag, fun a ha => ⟨(hall a ha).1, hfree _ (hall a ha).2⟩⟩
  filled _ _ := trivial

theorem open_tidy : Rule.tidy.Open Inner := by
  refine open_texts ?_ ?_ ?_
  · exact fun u hu => hu.closed
  · exact fun w hw => closed_token hw.braceFree
  · exact fun found w s hfound _ hw hs => hs.replaceAll hfound.ne_nil hfound.1 hw.braceFree

theorem isVoid_of_isTag {e : Element} {name : String} (h : e.isTag name = true)
    (hname : ∀ n ∈ voidNames, eqIgnoreAsciiCase n.toList name.toList = false) :
    e.tag.isVoid = false := by
  refine Bool.eq_false_iff.mpr fun hv => ?_
  simp only [Tag.isVoid, Bool.and_eq_true, List.contains_iff_mem] at hv
  have hno := hname e.tag.name hv.2
  rw [Element.isTag, hno] at h
  cases h

theorem Edit.follows {r : Rule} {words : String → Prop} (hr : r.Open words) {f g : Forest}
    (h : Edit words f g) (hf : f.Follows r) : g.Follows r := by
  cases h with
  | content he hne hw => exact hf.setText he hne (hr.token _ hw)
  | line he hbody hw =>
    refine hf.updateAt fun e' he' hfollows => ?_
    obtain rfl := Option.some.inj (he.symm.trans he')
    have hfilled := hr.filled _ (isVoid_of_isTag hbody (by decide))
    refine ⟨hfollows.1, fun _ => hfilled, Forest.follows_append.mpr ⟨?_, hfollows.2.2⟩⟩
    exact follows_followedBy.mpr ⟨⟨hr.line, fun _ => hr.filled _ (by decide),
      hr.token _ hw, trivial⟩, trivial⟩
  | link htext hurl =>
    refine hf.replaceCta ?_ (hr.token _ htext) fun tag as => hr.href _ tag as hurl
    exact fun e he => hr.filled _ (isVoid_of_isTag he (by decide))
  | block he hopener hcloser =>
    refine hf.wrap _ ?_ ?_
    · rw [ofList_sectionOpener]
      exact hr.token _ hopener
    · rw [ofList_sectionCloser]
      exact hr.token _ hcloser
  | contact he hfound hname hw =>
    refine hf.updateAt fun e _ hfollows => ⟨hfollows.1, fun hne => hfollows.2.1 fun hnil => hne ?_, ?_⟩
    · simp only [hnil, Forest.replaceLiteral]
    · exact hfollows.2.2.replaceLiteral (fun s => hr.replaced _ _ s hfound hname hw)
        fun tag as => hr.values _ _ tag as hfound hname hw
  | comments => exact hf.stripComments

theorem Edits.follows {r : Rule} {words : String → Prop} (hr : r.Open words) {f g : Forest}
    (h : Edits words f g) (hf : f.Follows r) : g.Follows r := by
  induction h with
  | refl => exact hf
  | tail _ hedit ih => exact hedit.follows hr ih

/-! ### Words without a token -/

theorem Edit.places_eq_zero {words : String → Prop} (hwords : ∀ w, words w → Inner w) {w : String}
    (hw : Inner w) (hnew : ¬ words w) {f g : Forest} (h : Edit words f g) (hf : f.places w = 0) :
    g.places w = 0 := by
  have hother : ∀ x, words x → (placesOf (token w.toList)).text (nameToken x) = 0 :=
    fun x hx => text_token_eq_zero hw (hwords x hx) fun he => hnew (he ▸ hx)
  have hne : ∀ x, words x → w.toList ≠ x.toList :=
    fun x hx he => hnew (String.toList_inj.mp he ▸ hx)
  simp only [Forest.places] at hf ⊢
  cases h with
  | @content _ _ x he _ hx =>
    have hcount := Forest.tally_setText (m := placesOf (token w.toList)) he (nameToken x)
    rw [hother _ hx, hf] at hcount
    omega
  | line he _ hx =>
    have hcount := Forest.tally_updateAt (m := placesOf (token w.toList)) he fun e =>
      { e with children := (Adaptation.hiddenLine.followedBy .nil).append e.children }
    have hstyle : (placesOf (token w.toList)).attributes Adaptation.hiddenLine.attributes = 0 := by
      refine attributes_placesOf_eq_zero.mpr fun a ha => ?_
      exact not_token_infix_of_braceFree (hiddenLine_braceFree.2 a ha).2 _
    have hline : (Adaptation.hiddenLine.followedBy .nil).tally (placesOf (token w.toList)) = 0 := by
      rw [tally_followedBy, Element.tally, hstyle]
      simp only [Adaptation.hiddenLine, Forest.tally, hother _ hx]
    simp only [Element.tally, Forest.tally_append, hline] at hcount
    rw [Forest.prepend]
    omega
  | link htext hurl =>
    exact Forest.placesOf_replaceCta_eq_zero hw.braceFree (hwords _ htext).braceFree
      (hwords _ hurl).braceFree (hne _ htext) (hne _ hurl) hf
  | block he hopener hcloser =>
    rw [Forest.tally_wrap he, hf, ofList_sectionOpener, ofList_sectionCloser, hother _ hopener,
      hother _ hcloser]
  | @contact _ _ x found he hfound _ hx =>
    have hcount := Forest.tally_updateAt (m := placesOf (token w.toList)) he fun e =>
      { e with children := e.children.replaceLiteral found (token x.toList) }
    have hle := Forest.tally_le_of_elementAt? (m := placesOf (token w.toList)) he
    simp only [Element.tally] at hcount hle
    rw [Forest.placesOf_replaceLiteral_eq_zero hfound.ne_nil hw.braceFree (hwords _ hx).braceFree
      (hne _ hx) (.inl (by omega))] at hcount
    omega
  | comments => rwa [Forest.tally_stripComments]

theorem Edits.places_eq_zero {words : String → Prop} (hwords : ∀ w, words w → Inner w) {w : String}
    (hw : Inner w) (hnew : ¬ words w) {f g : Forest} (h : Edits words f g) (hf : f.places w = 0) :
    g.places w = 0 := by
  induction h with
  | refl => exact hf
  | tail _ hedit ih => exact hedit.places_eq_zero hwords hw hnew ih

end EmailTemplate
