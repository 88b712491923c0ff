import EmailTemplate.Html.Parse
import EmailTemplate.Proofs.Html.Formatting

/-! The rules of tree construction put nothing into a void element, and leave the element of the document
where it is. -/

namespace EmailTemplate.Html

namespace Build

open Std.Do

set_option mvcgen.warning false

variable (kept : Kept)

@[spec]
theorem done_keeps : Keeps kept done := by
  mvcgen [done]

/-! ### Head -/

@[spec]
theorem mergeRoot_keeps (tag : StartTag) : Keeps kept (mergeRoot tag) := by
  mvcgen [mergeRoot]

@[spec]
theorem openTemplate_keeps {tag : StartTag} (ht : isVoidName tag.name = false) :
    Keeps kept (openTemplate tag) := by
  mvcgen [openTemplate]
  rename_i h _
  exact h.same rfl rfl rfl rfl

@[spec]
theorem closeTemplate_keeps : Keeps kept closeTemplate := by
  mvcgen [closeTemplate]

@[spec]
theorem headStart_keeps (tag : StartTag) : Keeps kept (headStart tag) := by
  mvcgen [headStart]
  all_goals simp [*, isVoidName, Tag.isVoid, voidNames]

@[spec]
theorem inHead_keeps (token : Token) : Keeps kept (inHead token) := by
  mvcgen [inHead]

/-! ### Body -/

@[spec]
theorem templateEnd_keeps : Keeps kept templateEnd := by
  mvcgen [templateEnd]

@[spec]
theorem bodyChar_keeps (c : Char) : Keeps kept (bodyChar c) := by
  mvcgen [bodyChar]

/-- The body is not the element of the document. -/
theorem ne_root_of_body? {b : Builder} {body r : Nat} (hbody : body? b = some body)
    (hroot : b.arena.IsRoot r) : body ≠ r := by
  have hnamed : isNamed b "body" body = true := by
    rw [body?] at hbody
    split at hbody
    · split at hbody
      · next hnamed =>
        rw [← Option.some.inj hbody]
        exact hnamed
      · cases hbody
    · cases hbody
  rintro rfl
  rw [isNamed, tagOf, hroot.tag] at hnamed
  exact absurd hnamed (by decide)

section Open

variable {tag : StartTag} (ht : isVoidName tag.name = false)
include ht

@[spec]
theorem openBlock_keeps : Keeps kept (openBlock tag) := by
  mvcgen [openBlock]

@[spec]
theorem openItem_keeps (names : List String) : Keeps kept (openItem names tag) := by
  mvcgen [openItem]
  all_goals simp [ht]

@[spec]
theorem openForm_keeps : Keeps kept (openForm tag) := by
  mvcgen [openForm]
  rename_i h _
  exact h.same rfl rfl rfl rfl

@[spec]
theorem openButton_keeps : Keeps kept (openButton tag) := by
  mvcgen [openButton]

@[spec]
theorem openNoBreak_keeps : Keeps kept (openNoBreak tag) := by
  mvcgen [openNoBreak]

@[spec]
theorem openSelect_keeps : Keeps kept (openSelect tag) := by
  mvcgen [openSelect]

@[spec]
theorem openFrameset_keeps : Keeps kept (openFrameset tag) := by
  mvcgen [openFrameset]
  rename_i b h body hbody
  have hfound : body? b = some body := by
    split at hbody
    · exact hbody
    · cases hbody
  have hdetach := h.leads (h.arena.detach body) fun r hr =>
    (h.root r hr).detach (ne_root_of_body? hfound (h.root r hr))
  exact hdetach.setOpen (List.forall_mem_singleton.mpr hdetach.rootElement)

end Open

@[spec]
theorem mergeBody_keeps (tag : StartTag) : Keeps kept (mergeBody tag) := by
  mvcgen [mergeBody]

@[spec]
theorem emptyElement_keeps (tag : StartTag) : Keeps kept (emptyElement tag) := by
  mvcgen [emptyElement]

@[spec]
theorem bodyStart_keeps (tag : StartTag) : Keeps kept (bodyStart tag) := by
  mvcgen [bodyStart]
  -- A name that no rule lists is no void name, as the rules list all of those.
  all_goals first
    | simp [*, isVoidName, Tag.isVoid, voidNames]; done
    | rename_i h _
      exact h.same rfl rfl rfl rfl
    | refine isVoidName_of_ne ?_
      simp only [*, voidNames, List.forall_mem_cons, List.not_mem_nil, false_implies,
        implies_true, and_true]
      and_intros
      all_goals assumption

@[spec]
theorem closeInScope_keeps (ends : Tag → Bool) (name : String) :
    Keeps kept (closeInScope ends name) := by
  mvcgen [closeInScope]

@[spec]
theorem closeBlock_keeps (name : String) : Keeps kept (closeBlock name) := by
  mvcgen [closeBlock]

@[spec]
theorem closeForm_keeps : Keeps kept closeForm := by
  mvcgen [closeForm]
  · rename_i h _ _ _
    exact h.same rfl rfl rfl rfl
  · rename_i h _ _ _ _ _
    exact h.same rfl rfl rfl rfl
  · rename_i h _ _ _ _ _
    exact h.same rfl rfl rfl rfl

@[spec]
theorem bodyEnd_keeps (name : String) : Keeps kept (bodyEnd name) := by
  mvcgen [bodyEnd]

@[spec]
theorem inBody_keeps (token : Token) : Keeps kept (inBody token) := by
  mvcgen [inBody]

/-! ### Tables -/

@[spec]
theorem misplaced_keeps (token : Token) : Keeps kept (misplaced token) := by
  mvcgen [misplaced]
  · rename_i h _
    exact h.same rfl rfl rfl rfl
  · rename_i h _
    exact h.same rfl rfl rfl rfl

@[spec]
theorem inTableTextOrBody_keeps (token : Token) : Keeps kept (inTableTextOrBody token) := by
  mvcgen [inTableTextOrBody]
  rename_i h _
  exact h.same rfl rfl rfl rfl

@[spec]
theorem tableStart_keeps (tag : StartTag) : Keeps kept (tableStart tag) := by
  mvcgen [tableStart]
  all_goals first
    | simp [*, isVoidName, Tag.isVoid, voidNames]
    | rename_i h _
      exact h.same rfl rfl rfl rfl

@[spec]
theorem inTable_keeps (token : Token) : Keeps kept (inTable token) := by
  mvcgen [inTable]

@[spec]
theorem inTableText_keeps (token : Token) : Keeps kept (inTableText token) := by
  have hforM := @keeps_forM kept Char
  have hdiscard : ∀ c, Keeps kept (discard (misplaced (.char c))) := by
    intro c
    change Keeps kept ((fun _ => PUnit.unit) <$> misplaced (.char c))
    mvcgen
  mvcgen [inTableText, hforM]
  · rename_i h _
    exact h.same rfl rfl rfl rfl
  · rename_i h _ _ _
    exact h.same rfl rfl rfl rfl
  · exact hdiscard _
  · rename_i h _ _ _
    exact h.same rfl rfl rfl rfl

@[spec]
theorem closeCaption_keeps : Keeps kept closeCaption := by
  mvcgen [closeCaption]

@[spec]
theorem inCaption_keeps (token : Token) : Keeps kept (inCaption token) := by
  mvcgen [inCaption]

@[spec]
theorem leaveColumnGroup_keeps : Keeps kept leaveColumnGroup := by
  mvcgen [leaveColumnGroup]

@[spec]
theorem inColumnGroup_keeps (token : Token) : Keeps kept (inColumnGroup token) := by
  mvcgen [inColumnGroup]

@[spec]
theorem toRows_keeps : Keeps kept toRows := popTo_keeps kept _

@[spec]
theorem toCells_keeps : Keeps kept toCells := popTo_keeps kept _

@[spec]
theorem leaveRows_keeps : Keeps kept leaveRows := by
  mvcgen [leaveRows]

@[spec]
theorem inTableBody_keeps (token : Token) : Keeps kept (inTableBody token) := by
  mvcgen [inTableBody]
  all_goals simp [*, isVoidName, Tag.isVoid, voidNames]

@[spec]
theorem closeRow_keeps : Keeps kept closeRow := by
  mvcgen [closeRow]

@[spec]
theorem leaveRow_keeps : Keeps kept leaveRow := by
  mvcgen [leaveRow]

@[spec]
theorem inRow_keeps (token : Token) : Keeps kept (inRow token) := by
  mvcgen [inRow]
  all_goals simp [*, isVoidName, Tag.isVoid, voidNames]

@[spec]
theorem leaveCell_keeps : Keeps kept leaveCell := by
  mvcgen [leaveCell]

@[spec]
theorem inCell_keeps (token : Token) : Keeps kept (inCell token) := by
  mvcgen [inCell]

/-! ### Lists of choices -/

@[spec]
theorem closeSelect_keeps : Keeps kept closeSelect := by
  mvcgen [closeSelect]

@[spec]
theorem popNamed_keeps (name : String) : Keeps kept (popNamed name) := by
  mvcgen [popNamed]

@[spec]
theorem inSelect_keeps (token : Token) : Keeps kept (inSelect token) := by
  mvcgen [inSelect]
  all_goals simp [*, isVoidName, Tag.isVoid, voidNames]

@[spec]
theorem inSelectInTable_keeps (token : Token) : Keeps kept (inSelectInTable token) := by
  mvcgen [inSelectInTable]

/-! ### Templates, frames, and the ends of the document -/

@[spec]
theorem templateAs_keeps (mode : Mode) : Keeps kept (templateAs mode) := by
  mvcgen [templateAs]

@[spec]
theorem inTemplate_keeps (token : Token) : Keeps kept (inTemplate token) := by
  mvcgen [inTemplate]

@[spec]
theorem afterBody_keeps (token : Token) : Keeps kept (afterBody token) := by
  mvcgen [afterBody]
  rename_i h
  exact ⟨h, h.rootElement⟩

@[spec]
theorem inFrameset_keeps (token : Token) : Keeps kept (inFrameset token) := by
  mvcgen [inFrameset]
  all_goals simp [*, isVoidName, Tag.isVoid, voidNames]

@[spec]
theorem afterFrameset_keeps (token : Token) : Keeps kept (afterFrameset token) := by
  mvcgen [afterFrameset]

@[spec]
theorem afterAfterBody_keeps (token : Token) : Keeps kept (afterAfterBody token) := by
  mvcgen [afterAfterBody]
  rename_i h
  exact ⟨h, h.arena.root⟩

@[spec]
theorem afterAfterFrameset_keeps (token : Token) : Keeps kept (afterAfterFrameset token) := by
  mvcgen [afterAfterFrameset]
  rename_i h
  exact ⟨h, h.arena.root⟩

/-! ### The beginning of the document -/

@[spec]
theorem initial_keeps (token : Token) : Keeps kept (initial token) := by
  mvcgen [initial]
  · rename_i h _
    exact h.same rfl rfl rfl rfl
  · rename_i h
    exact ⟨h, h.arena.root⟩
  · rename_i h _
    exact h.same rfl rfl rfl rfl

@[spec]
theorem startDocument_keeps : Keeps kept startDocument := by
  mvcgen [startDocument]

@[spec]
theorem beforeHtml_keeps (token : Token) : Keeps kept (beforeHtml token) := by
  mvcgen [beforeHtml]
  rename_i h
  exact ⟨h, h.arena.root⟩

@[spec]
theorem startHead_keeps : Keeps kept startHead := by
  have hholds := @insertPhantom_holds kept "head" rfl
  mvcgen [startHead, hholds, -insertPhantom_keeps]
  rename_i h _
  exact h.setHead

@[spec]
theorem beforeHead_keeps (token : Token) : Keeps kept (beforeHead token) := by
  have hholds := @insertFor_holds kept
  mvcgen [beforeHead, hholds, -insertFor_keeps]
  · simp [*, isVoidName, Tag.isVoid, voidNames]
  · rename_i h _
    exact h.setHead.same rfl rfl rfl rfl

@[spec]
theorem startBody_keeps : Keeps kept startBody := by
  mvcgen [startBody]

@[spec]
theorem lateHead_keeps (tag : StartTag) : Keeps kept (lateHead tag) := by
  mvcgen [lateHead]
  rename_i b h head hhead
  exact ⟨h, h.head head hhead⟩

@[spec]
theorem afterHead_keeps (token : Token) : Keeps kept (afterHead token) := by
  mvcgen [afterHead]
  all_goals simp [*, isVoidName, Tag.isVoid, voidNames]

@[spec]
theorem inText_keeps (token : Token) : Keeps kept (inText token) := by
  mvcgen [inText]
  rename_i h _
  exact h.same rfl rfl rfl rfl

/-! ### All modes -/

@[spec]
theorem step_keeps (mode : Mode) (token : Token) : Keeps kept (step mode token) := by
  cases mode
  all_goals mvcgen [step]

theorem foreignEnd_subset {b : Builder} {name : String} {first : Bool} {row rest : List Nat}
    (h : foreignEnd b name first row = .close rest) : rest ⊆ row := by
  induction row generalizing first with
  | nil => simp [foreignEnd] at h
  | cons n outer ih =>
    cases outer with
    | nil => simp [foreignEnd] at h
    | cons m outer =>
      simp only [foreignEnd] at h
      split at h
      · cases h
      · split at h
        · cases h
          exact List.subset_cons_self _ _
        · exact List.subset_cons_of_subset n (ih h)

theorem stepForeign_keeps (token : Token) :
    ⦃fun b => ⌜b.Sound kept ∧ (currentTag b).space ≠ .html⌝⦄ stepForeign token
    ⦃⇓ _ => fun b => ⌜b.Sound kept⌝⦄ := by
  have htag := foreignTag_keeps kept
  mvcgen [stepForeign, htag]
  case vc10.h_7.h_1 =>
    rename_i h rest hrest
    exact h.1.setOpen fun n hn => h.1.opened n (foreignEnd_subset hrest hn)
  all_goals exact ‹Builder.Sound kept _ ∧ _›.1

theorem space_of_isForeign {b : Builder} {token : Token} (h : isForeign b token = true) :
    (currentTag b).space ≠ .html := by
  intro hs
  cases token <;> simp [isForeign, hs] at h

@[spec]
theorem process_keeps (fuel : Nat) (token : Token) : Keeps kept (process fuel token) := by
  induction fuel with
  | zero =>
    rw [process]
    mvcgen
  | succ fuel ih =>
    have hforeign := stepForeign_keeps kept
    rw [process]
    mvcgen [hforeign, ih]
    rename_i h _ hforeign
    exact ⟨h, space_of_isForeign hforeign⟩

@[spec]
theorem readDoctypeToken_keeps (d : Doctype) : Keeps kept (readDoctypeToken d) := by
  have hcreate := @createNode_keeps kept (.doctype (d.name.getD "")) rfl
  mvcgen [readDoctypeToken, hcreate]
  · rename_i h
    exact ⟨h.1, h.1.arena.root, h.2⟩
  · rename_i h _
    exact h.same rfl rfl rfl rfl

theorem take_keeps (token : Token) : Keeps kept (take token) := by
  have hread : ∀ b : Builder, b.Sound kept → ({ b with skipLineFeed := false } : Builder).Sound kept :=
    fun b h => h.same rfl rfl rfl rfl
  mvcgen [take]
  all_goals
    apply hread
    assumption

end Build

/-! ### Whole documents -/

theorem start_sound : Builder.start.Sound .none where
  arena := Arena.sound_empty
  opened := by simp [Builder.start]
  head := by simp [Builder.start]
  formatting := by simp [Builder.start]
  nodes := by simp [Kept.none]
  root := by simp [Kept.none]

theorem takeAll_sound {kept : Kept} {b : Builder} (h : b.Sound kept) (tokens : List Token) :
    (takeAll tokens b).Sound kept := by
  induction tokens generalizing b with
  | nil => exact h
  | cons token rest ih => exact ih (Build.take_keeps kept token b h)

theorem construct_sound {kept : Kept} {b : Builder} (h : b.Sound kept) (fuel : Nat) (s : List Char) :
    (construct fuel s b).Sound kept := by
  induction fuel generalizing s b with
  | zero => exact h
  | succ fuel ih =>
    cases s with
    | nil => exact takeAll_sound h _
    | cons c s =>
      simp only [construct]
      split
      · exact ih (takeAll_sound h _) _
      · have hdata : ({ b with textMode := .data } : Builder).Sound kept := h.same rfl rfl rfl rfl
        exact ih (takeAll_sound hdata _) _

/-- In a parsed document nothing stands inside a void element. -/
theorem parse_voidsEmpty (html : String) : (parse html).VoidsEmpty :=
  (construct_sound start_sound _ _).arena.toForest

end EmailTemplate.Html
