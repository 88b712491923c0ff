import EmailTemplate.Proofs.Adaptation.Standing

/-! The tokens of the preheader and of the title outlast every stage but those that look for a preheader
and for a title: no call to action takes the place of a token, and no contact detail is inside one. -/

namespace EmailTemplate

open Html Template Text

namespace Adaptation

variable {m : Measure} {w : String}

theorem tally_le_addBlock {a : Adaptation} {block : Landmark.Block}
    (hindex : block.visit.index < a.document.count) :
    a.document.tally m ≤ (a.addBlock block).document.tally m := by
  obtain ⟨e, he⟩ := Forest.exists_elementAt? hindex
  rw [addBlock, record_document, Forest.tally_wrap he]
  exact Nat.le_add_right _ _

/-- Whatever is counted in a document, blocks only add to it. -/
theorem tally_le_runBlocks (names : List String) (a : Adaptation) :
    a.document.tally m ≤ (a.runBlocks names).document.tally m := by
  have hfold : ∀ (blocks : List Landmark.Block) (b : Adaptation),
      (∀ block ∈ blocks, block.visit.index < b.document.count) →
        b.document.tally m ≤ (blocks.foldl addBlock b).document.tally m := by
    intro blocks
    induction blocks with
    | nil => exact fun b _ => Nat.le_refl _
    | cons block blocks ih =>
      intro b hin
      have hfirst := tally_le_addBlock (m := m) (hin block List.mem_cons_self)
      have hrest := ih (b.addBlock block) fun other hother => by
        rw [count_addBlock]
        exact hin other (List.mem_cons_of_mem block hother)
      exact hfirst.trans hrest
  exact hfold _ a fun _ hb => (Landmark.of_mem_blocks hb).2

/-- The body has no less after its contacts are replaced, if no contact detail counts for more than
what replaces it. -/
theorem tally_le_runBrand (hm : ∀ found, Contact.Detail found → ∀ put (f : Forest),
      f.tally m ≤ (f.replaceLiteral found put).tally m) (a : Adaptation) :
    a.document.tally m ≤ a.runBrand.document.tally m := by
  rw [runBrand]
  split
  · exact Nat.le_refl _
  · next body _ =>
    refine List.foldlRecOn (motive := fun b : Adaptation => a.document.tally m ≤ b.document.tally m)
      _ _ (Nat.le_refl _) ?_
    intro b hb contact hcontact
    rcases replaceFound_cases b body.index body.element.innerHtml.toList contact with
      heq | ⟨found, e, hfound, -, he, -, hdocument, -⟩
    · rwa [heq]
    · have hdetail := Contact.detail_of_find? hcontact hfound
      have hchange := Forest.tally_updateAt_children (m := m) he fun f =>
        f.replaceLiteral found (token contact.placeholder.toList)
      have hle := hm found hdetail (token contact.placeholder.toList) e.children
      have hsplit := Forest.tally_eq_outside (m := m) he
      rw [hdocument, hchange]
      omega

theorem tally_runComments (preserve : Bool) (a : Adaptation) :
    (a.runComments preserve).document.tally m = a.document.tally m := by
  rw [runComments]
  split
  · rfl
  · exact Forest.tally_stripComments _

theorem texts_le_runCtas (strategy : CtaStrategy) (a : Adaptation) :
    a.document.texts w ≤ (a.runCtas strategy).document.texts w := by
  refine List.foldlRecOn (motive := fun b : Adaptation => a.document.texts w ≤ b.document.texts w)
    _ _ (Nat.le_refl _) ?_
  intro b hb c hc
  have hle := Forest.textsWith_le_replaceCta (CtaStrategy.named_of_mem_select hc).1
    (openBraces_infix_token w.toList) b.document
  rw [addCta_document]
  exact hb.trans hle

end Adaptation

/-- The stages that look for neither a preheader nor a title. -/
def Stage.later : List Stage := [ctas, blocks, brand, comments]

section Lasting

variable {w : String} (hmark : w.toList.any Contact.isMark = false)
include hmark

/-- A token without a character that every contact detail has lasts through one stage. -/
theorem texts_le_run {s : Stage} (hs : s ∈ Stage.later) (o : AdaptOptions) (a : Adaptation) :
    a.document.texts w ≤ (s.run o a).document.texts w := by
  simp only [Stage.later, List.mem_cons, List.not_mem_nil, or_false] at hs
  rcases hs with rfl | rfl | rfl | rfl
  · exact a.texts_le_runCtas o.ctaStrategy
  · exact a.tally_le_runBlocks o.detectBlocks
  · refine a.tally_le_runBrand fun found hfound => ?_
    exact Forest.textsWith_le_replaceLiteral hfound.ne_nil hfound.1 (hfound.not_infix hmark)
  · exact (a.tally_runComments o.preserveComments).ge

theorem texts_le_runAll {stages : List Stage} (hstages : ∀ s ∈ stages, s ∈ Stage.later)
    (o : AdaptOptions) (a : Adaptation) :
    a.document.texts w ≤ (Stage.runAll o stages a).document.texts w := by
  induction stages generalizing a with
  | nil => exact Nat.le_refl _
  | cons s stages ih =>
    have hfirst := texts_le_run hmark (hstages s List.mem_cons_self) o a
    have hrest := ih (fun t ht => hstages t (List.mem_cons_of_mem s ht)) (s.run o a)
    exact hfirst.trans hrest

end Lasting

/-- No run of these stages takes a token of the preheader or of the title out of a text. -/
theorem texts_preheader_title_le {stages : List Stage} (hstages : ∀ s ∈ stages, s ∈ Stage.later)
    (o : AdaptOptions) (a : Adaptation) :
    a.document.texts "preheader" ≤ (Stage.runAll o stages a).document.texts "preheader" ∧
      a.document.texts "title" ≤ (Stage.runAll o stages a).document.texts "title" :=
  ⟨texts_le_runAll (by decide) hstages o a, texts_le_runAll (by decide) hstages o a⟩

/-- A title inside a link that looks like a button. -/
theorem texts_title_button :
    let o : AdaptOptions := ⟨["hero"], .all, true, false⟩
    let a := Stage.runAll o [.preheader, .title] (.start "<a class=btn href=x><h1 class=title>Go</h1></a>")
    a.document.texts "title" = 1 ∧ (∀ s ∈ [Stage.ctas, .brand, .ctas, .comments], s ∈ Stage.later) ∧
      a.document.texts "preheader" ≤
        (Stage.runAll o [.ctas, .brand, .ctas, .comments] a).document.texts "preheader" ∧
      a.document.texts "title" ≤
        (Stage.runAll o [.ctas, .brand, .ctas, .comments] a).document.texts "title" :=
  ⟨by decide +kernel, by decide, texts_preheader_title_le (by decide) _ _⟩

end EmailTemplate
