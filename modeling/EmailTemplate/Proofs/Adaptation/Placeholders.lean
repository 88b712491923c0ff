import EmailTemplate.Proofs.Adaptation.Standing
import EmailTemplate.Proofs.Html.Rules

/-! Every recorded placeholder stands in the template, as long as no stage takes away what an earlier
one has put in. In a message without braces that is the only way for it to stand. -/

namespace EmailTemplate

open Html Template

/-- Every token of every recorded placeholder stands in the markup. -/
def AdaptedTemplate.Complete (t : AdaptedTemplate) : Prop :=
  ∀ p ∈ t.placeholders, ∀ w ∈ p.words, (nameToken w).toList <:+: t.html.toList

instance (t : AdaptedTemplate) : Decidable t.Complete :=
  inferInstanceAs (Decidable
    (∀ p ∈ t.placeholders, ∀ w ∈ Placeholder.words p, (nameToken w).toList <:+: t.html.toList))

namespace Stage

/-- A message as a stage finds it. -/
def found (o : AdaptOptions) (html : String) (s : Stage) : Adaptation :=
  runAll o (all.takeWhile (· != s)) (.start html)

section Found

variable (o : AdaptOptions) (html : String)

theorem found_title : title.found o html =
    (Adaptation.start html).runPreheader o.preheaderFallback := by
  rw [found]
  generalize Adaptation.start html = a
  rfl

theorem found_ctas : ctas.found o html = (title.found o html).runTitle := by
  rw [found, found]
  generalize Adaptation.start html = a
  rfl

theorem found_blocks : blocks.found o html = (ctas.found o html).runCtas o.ctaStrategy := by
  rw [found, found]
  generalize Adaptation.start html = a
  rfl

theorem found_brand : brand.found o html = (blocks.found o html).runBlocks o.detectBlocks := by
  rw [found, found]
  generalize Adaptation.start html = a
  rfl

theorem found_comments : comments.found o html = (brand.found o html).runBrand := by
  rw [found, found]
  generalize Adaptation.start html = a
  rfl

theorem runAll_all : runAll o all (.start html) =
    (comments.found o html).runComments o.preserveComments := by
  rw [found]
  generalize Adaptation.start html = a
  rfl

theorem runAll_found (s : Stage) :
    runAll o (all.dropWhile (· != s)) (s.found o html) = runAll o all (.start html) := by
  rw [found, runAll, runAll, ← List.foldl_append, List.takeWhile_append_dropWhile, runAll]

end Found

end Stage

/-- No stage takes away what an earlier one has put in. -/
structure Spared (o : AdaptOptions) (html : String) : Prop where
  title : (Stage.title.found o html).TitleSpares
  ctas : (Stage.ctas.found o html).CtasSpare o.ctaStrategy
  contacts : (Stage.brand.found o html).ContactsSpare

/-! ### The finished template -/

section Finish

variable {a : Adaptation} (hwords : ∀ w ∈ a.words, Inner w)
include hwords

theorem Adaptation.Standing.complete (hvoid : a.document.Follows .voidsEmpty) (ha : a.Standing) :
    a.finish.Complete := by
  intro p hp w hw
  have hmem := mem_words.mpr ⟨p, hp, hw⟩
  simp only [finish, Forest.toHtml, String.toList_ofList, toList_nameToken]
  exact infix_print (hwords w hmem).plain hvoid (ha w hmem) false

theorem AdaptedTemplate.Complete.standing (htidy : a.document.Follows .tidy)
    (h : a.finish.Complete) : a.Standing := by
  intro w hw
  obtain ⟨p, hp, hwp⟩ := Adaptation.mem_words.mp hw
  have hi := h p hp w hwp
  simp only [Adaptation.finish, Forest.toHtml, String.toList_ofList, toList_nameToken] at hi
  exact of_token_infix_print (hwords w hw).braceFree (hwords w hw).ampersand_not_mem htidy hi

end Finish

namespace Stage

theorem puts_inj {s s' : Stage} {w : String} (h : s.Puts w) (h' : s'.Puts w) : s = s' := by
  obtain ⟨-, c, hc, hhead⟩ := h
  obtain ⟨-, c', hc', hhead'⟩ := h'
  obtain rfl := Option.some.inj (hhead.symm.trans hhead')
  revert hc hc'
  cases s <;> cases s' <;> simp +contextual [initials, or_imp]

theorem follows_runAll {r : Rule} (hr : r.Open Inner) (o : AdaptOptions) (stages : List Stage)
    {html : String} (h : (parse html).Follows r) :
    (runAll o stages (.start html)).document.Follows r :=
  ((grows_runAll o stages (.start html)).edits.mono fun _ ⟨_, _, hw⟩ => hw.1).follows hr h

section Words

variable {o : AdaptOptions} {html w : String}

theorem exists_puts {stages : List Stage} (h : w ∈ (runAll o stages (.start html)).words) :
    ∃ s ∈ stages, s.Puts w :=
  ((grows_runAll o stages (.start html)).adds w h).resolve_left (by simp [Adaptation.words_start])

/-- A word that stands nowhere does not stand in the end, if no later stage puts it in. -/
theorem places_runAll_eq_zero {s t : Stage} (hs : s.Puts w) (hbefore : s ∉ all.dropWhile (· != t))
    (hzero : (t.found o html).document.places w = 0) :
    (runAll o all (.start html)).document.places w = 0 := by
  have hgrows := grows_runAll o (all.dropWhile (· != t)) (t.found o html)
  rw [runAll_found] at hgrows
  refine hgrows.edits.places_eq_zero (fun _ ⟨_, _, hx⟩ => hx.1) hs.1 ?_ hzero
  rintro ⟨s', hs', hputs⟩
  exact hbefore (puts_inj hs hputs ▸ hs')

theorem places_ne_zero {s t : Stage} (hend : (runAll o all (.start html)).Standing)
    (hw : w ∈ (t.found o html).words) (hs : s.Puts w)
    (hbefore : s ∉ all.dropWhile (· != t)) : (t.found o html).document.places w ≠ 0 := by
  have hgrows := grows_runAll o (all.dropWhile (· != t)) (t.found o html)
  rw [runAll_found] at hgrows
  intro hzero
  exact hend w (hgrows.keeps hw) (places_runAll_eq_zero hs hbefore hzero)

/-- In a message without braces no word stands before its stage. -/
theorem places_eq_zero (hfree : (parse html).Follows .braceFree) {s t : Stage} (hs : s.Puts w)
    (hafter : s ∉ all.takeWhile (· != t)) : (t.found o html).document.places w = 0 := by
  have hgrows := grows_runAll o (all.takeWhile (· != t)) (.start html)
  refine hgrows.edits.places_eq_zero (fun _ ⟨_, _, hx⟩ => hx.1) hs.1 ?_
    (placesOf_token_eq_zero w.toList hfree)
  rintro ⟨s', hs', hputs⟩
  exact hafter (puts_inj hs hputs ▸ hs')

end Words

end Stage

/-! ### All tokens stand -/

theorem Spared.standing {o : AdaptOptions} {html : String} (h : Spared o html) :
    (Stage.runAll o Stage.all (.start html)).Standing := by
  have htitle : (Stage.title.found o html).Written := by
    rw [Stage.found_title]
    exact Adaptation.written_preheader o.preheaderFallback html
  have hctas : (Stage.ctas.found o html).Written := by
    rw [Stage.found_ctas]
    exact htitle.title h.title
  have hblocks : (Stage.blocks.found o html).Standing := by
    rw [Stage.found_blocks]
    exact hctas.ctas h.ctas
  have hbrand : (Stage.brand.found o html).Standing := by
    rw [Stage.found_brand]
    exact hblocks.blocks o.detectBlocks
  rw [Stage.runAll_all, Stage.found_comments]
  exact (hbrand.brand h.contacts).comments o.preserveComments

/-! ### Messages without braces -/

namespace Adaptation

theorem places_preheader_le {html : String} (hfree : (parse html).Follows .braceFree)
    (fallback : Bool) (w : String) :
    ((start html).runPreheader fallback).document.places w ≤ 1 := by
  have hnone : (start html).document.places w = 0 := placesOf_token_eq_zero w.toList hfree
  have hone := text_placesOf_le (token w.toList) (nameToken "preheader")
  rw [runPreheader]
  split
  · next v hv =>
    have hcount := Forest.tally_setText (m := placesOf (token w.toList))
      (Landmark.elementAt?_of_preheader? hv).1 (nameToken "preheader")
    rw [Forest.places] at hnone
    simp only [putToken, record_document, Forest.places]
    omega
  · cases fallback with
    | false => exact hnone.le.trans (Nat.zero_le 1)
    | true =>
      cases hbody : (start html).document.body? with
      | none => exact hnone.le.trans (Nat.zero_le 1)
      | some body =>
        have he := (Landmark.elementAt?_of_body? hbody).1
        have hcount := Forest.tally_updateAt_children (m := placesOf (token w.toList)) he
          (hiddenLine.followedBy .nil).append
        have hsplit := Forest.tally_eq_outside (m := placesOf (token w.toList)) he
        have hstyle : (placesOf (token w.toList)).attributes hiddenLine.attributes = 0 :=
          attributes_placesOf_eq_zero.mpr fun a ha =>
            not_token_infix_of_braceFree (hiddenLine_braceFree.2 a ha).2 _
        have hline : (hiddenLine.followedBy .nil).tally (placesOf (token w.toList)) ≤ 1 := by
          rw [tally_followedBy, Element.tally, hstyle]
          simpa [hiddenLine, Forest.tally] using hone
        rw [Forest.tally_append] at hcount
        rw [Forest.places] at hnone
        simp only [Option.elim_some, addHiddenLine, record_document, Forest.places, Forest.prepend,
          if_true]
        omega

/-- A token that stands nowhere but in the text of the title is lost. -/
theorem places_runTitle_eq_zero {a : Adaptation} (htidy : a.document.Follows .tidy) {v : Visit}
    (hv : Landmark.title? a.document = some v) {w : String} (hw : Inner w) (hne : w ≠ "title")
    (hle : a.document.places w ≤ 1) (hi : token w.toList <:+: v.element.textContent.toList) :
    a.runTitle.document.places w = 0 := by
  have he := (Landmark.elementAt?_of_title? hv).1
  have hcount := Forest.tally_setText (m := placesOf (token w.toList)) he (nameToken "title")
  rw [text_token_eq_zero hw (by decide) hne] at hcount
  have hin := of_token_infix_textContent hw.braceFree (htidy.elementAt? he).2.2 hi
  rw [Forest.places] at hle
  rw [runTitle, hv]
  simp only [putToken, record_document, Forest.places]
  omega

theorem name_mem_words_record {a : Adaptation} {p : Placeholder} (hkind : p.kind ≠ .block)
    (hno : "#block:" ++ p.name ∉ a.words) : p.name ∈ (a.record p).words := by
  have hwords : ∀ q : Placeholder, q.kind ≠ .block → q.words = [q.name] :=
    fun q hq => if_neg hq
  rw [record]
  split
  · next hany =>
    obtain ⟨q, hq, hname⟩ := List.any_eq_true.mp hany
    have hqname : q.name = p.name := beq_iff_eq.mp hname
    refine mem_words.mpr ⟨q, hq, ?_⟩
    by_cases hblock : q.kind = .block
    · refine absurd (mem_words.mpr ⟨q, hq, ?_⟩) hno
      rw [Placeholder.words, if_pos hblock, hqname]
      exact List.mem_cons_self
    · rw [hwords q hblock, hqname]
      exact List.mem_cons_self
  · refine mem_words.mpr ⟨p, List.mem_append_right _ (List.mem_singleton_self p), ?_⟩
    rw [hwords p hkind]
    exact List.mem_cons_self

/-- While no block is recorded, the names of every call to action are. -/
theorem text_mem_words {ctas : List Cta} (hctas : ∀ c ∈ ctas, ∃ stem, c.Named stem) {a : Adaptation}
    (hno : ∀ name, "#block:" ++ name ∉ a.words) :
    ∀ c ∈ ctas, c.textPlaceholder ∈ (ctas.foldl addCta a).words := by
  induction ctas generalizing a with
  | nil => simp
  | cons c ctas ih =>
    have hrest : ∀ d ∈ ctas, ∃ stem, d.Named stem :=
      fun d hd => hctas d (List.mem_cons_of_mem c hd)
    obtain ⟨stem, hc⟩ := hctas c List.mem_cons_self
    have hnext : ∀ name, "#block:" ++ name ∉ (a.addCta c).words := by
      intro name hmem
      have hputs : ∀ w, Stage.ctas.Puts w → "#block:" ++ name ≠ w := by
        rintro w ⟨-, x, hx, hhead⟩ rfl
        obtain rfl := List.mem_singleton.mp hx
        simp [String.toList_append] at hhead
      rcases of_mem_words_addCta hmem with hmem | heq | heq
      · exact hno name hmem
      · exact hputs _ hc.puts.1 heq
      · exact hputs _ hc.puts.2 heq
    intro d hd
    rcases List.mem_cons.mp hd with rfl | hd
    · have hgrows : Grows Stage.ctas.Puts (a.addCta d) (ctas.foldl addCta (a.addCta d)) :=
        Grows.foldl fun b e he => (hrest e he).elim fun _ he =>
          (moves_addCta he b).grows Placeholder.Value.of_mem_words
      refine hgrows.keeps (words_subset_record _ _ ?_)
      exact name_mem_words_record (by simp) (hno _)
    · exact ih hrest hnext d hd

end Adaptation

theorem contactsSpare_of_standing {o : AdaptOptions} {html : String}
    (hend : (Stage.runAll o Stage.all (.start html)).Standing) :
    (Stage.brand.found o html).ContactsSpare := by
  refine Adaptation.contactsSpare_of_places (fun w hw => ?_) fun w hw => ?_
  · obtain ⟨s, -, hputs⟩ := Stage.exists_puts hw
    exact hputs.1
  · obtain ⟨s, hs, hputs⟩ := Stage.exists_puts hw
    have hbefore : ∀ s ∈ Stage.all.takeWhile (· != .brand),
        s ∉ Stage.all.dropWhile (· != .comments) := by decide
    have hmem : w ∈ (Stage.comments.found o html).words := by
      rw [Stage.found_comments]
      exact (Adaptation.grows_brand _).keeps hw
    have hstands := Stage.places_ne_zero hend hmem hputs (hbefore s hs)
    rwa [Stage.found_comments] at hstands

section BraceFree

variable {o : AdaptOptions} {html : String} (hfree : (parse html).Follows .braceFree)
  (hend : (Stage.runAll o Stage.all (.start html)).Standing)
include hfree hend

theorem titleSpares_of_standing : (Stage.title.found o html).TitleSpares := by
  intro v hv w hw hi
  obtain ⟨s, hs, hputs⟩ := Stage.exists_puts hw
  obtain rfl : s = .preheader := List.mem_singleton.mp hs
  have hle : (Stage.title.found o html).document.places w ≤ 1 := by
    rw [Stage.found_title]
    exact Adaptation.places_preheader_le hfree o.preheaderFallback w
  have hne : w ≠ "title" := by
    rintro rfl
    exact absurd hputs (by decide)
  have htidy : (Stage.title.found o html).document.Follows .tidy :=
    Stage.follows_runAll open_tidy o _ hfree.tidy
  have hlost := Adaptation.places_runTitle_eq_zero htidy hv hputs.1 hne hle hi
  rw [← Stage.found_ctas] at hlost
  refine Stage.places_ne_zero hend ?_ hputs (by decide) hlost
  rw [Stage.found_ctas]
  exact ((Adaptation.moves_title _).grows Placeholder.Value.of_mem_words).keeps hw

theorem ctasSpare_of_standing : (Stage.ctas.found o html).CtasSpare o.ctaStrategy := by
  have hnamed : ∀ c ∈ o.ctaStrategy.select (Landmark.ctas (Stage.ctas.found o html).document),
      ∃ stem, c.Named stem := fun c hc => (CtaStrategy.named_of_mem_select hc).2
  refine Adaptation.turns_of_places hnamed (CtaStrategy.nodup_select _ _) ?_ ?_
  · intro c hc
    obtain ⟨stem, hc⟩ := hnamed c hc
    exact Stage.places_eq_zero hfree hc.puts.1 (by decide)
  · intro c hc
    have hno : ∀ name, "#block:" ++ name ∉ (Stage.ctas.found o html).words := by
      intro name hmem
      obtain ⟨s, hs, hputs⟩ := Stage.exists_puts hmem
      have hblocks : Stage.blocks.Puts ("#block:" ++ name) :=
        ⟨hputs.1, '#', List.mem_cons_self, by simp [String.toList_append]⟩
      obtain rfl := Stage.puts_inj hputs hblocks
      exact absurd hs (by decide)
    have hmem := Adaptation.text_mem_words hnamed hno c hc
    obtain ⟨stem, hc⟩ := hnamed c hc
    have hstands := Stage.places_ne_zero (t := .blocks) hend (by rwa [Stage.found_blocks]) hc.puts.1
      (by decide)
    rwa [Stage.found_blocks] at hstands

end BraceFree

/-- The template has every recorded placeholder if no stage takes one away, and in a message without
braces only then. -/
theorem complete_adapt (o : AdaptOptions) (html : String) :
    (Spared o html → (adapt o html).Complete) ∧
      (Template.BraceFree (parse html).toHtml.toList →
        ((adapt o html).Complete ↔ Spared o html)) := by
  have hwords : ∀ w ∈ (Stage.runAll o Stage.all (.start html)).words, Inner w := fun w hw =>
    (Stage.exists_puts hw).elim fun _ h => h.2.1
  have hvoid : (parse html).Follows .voidsEmpty := (parse_voidsEmpty html).follows
  have hcomplete : Spared o html → (adapt o html).Complete := fun h =>
    h.standing.complete hwords (Stage.follows_runAll (open_voidsEmpty Inner) o Stage.all hvoid)
  refine ⟨hcomplete, fun hmarkup => ⟨fun h => ?_, hcomplete⟩⟩
  rw [Forest.toHtml, String.toList_ofList] at hmarkup
  have hfree := follows_braceFree hvoid hmarkup
  have hend := h.standing hwords (Stage.follows_runAll open_tidy o Stage.all hfree.tidy)
  exact ⟨titleSpares_of_standing hfree hend, ctasSpare_of_standing hfree hend,
    contactsSpare_of_standing hend⟩

/-- A preheader that is a block, a title and a mail address. -/
theorem spared_news : Spared ⟨["news"], .all, false, false⟩
    "<p id=news style=display:none>Preview of it<h1>Hi</h1>a@x.io" :=
  ((complete_adapt _ _).2 (by decide +kernel)).mp (by decide +kernel)

/-- A preheader that is classed as a title, a link inside a link, and a block that has a telephone
number for a name. -/
theorem not_complete_adapt :
    ¬ (adapt ⟨[], .all, false, false⟩
      "<p class=title style=display:none>Preview of it").Complete ∧
    ¬ (adapt ⟨[], .all, false, false⟩
      "<a class=btn href=x><table><td><a class=btn href=y>Go").Complete ∧
    ¬ (adapt ⟨["88005553535"], .all, false, false⟩
      "<p id=88005553535>88005553535").Complete := by
  decide +kernel

end EmailTemplate
