import EmailTemplate.Proofs.Html.Builder

/-! Opening formatting elements again and untangling them puts nothing into a void element, and moves
neither the element of the document nor anything that stands in the document itself. -/

namespace EmailTemplate.Html.Build

open Std.Do

set_option mvcgen.warning false

variable (kept : Kept)

theorem keeps_forM {α : Type} {f : α → Build PUnit} {row : List α}
    (hf : ∀ x ∈ row, Keeps kept (f x)) : Keeps kept (row.forM f) := by
  induction row with
  | nil =>
    rw [List.forM]
    mvcgen
  | cons x rest ih =>
    have hx := hf x List.mem_cons_self
    have hrest := ih fun y hy => hf y (List.mem_cons_of_mem _ hy)
    rw [List.forM]
    mvcgen [hx, hrest]

@[spec]
theorem replaceFormatting_keeps (n : Nat) {new : Nat} {tag : StartTag}
    (ht : isVoidName tag.name = false) : Keeps kept (replaceFormatting n (.element new tag)) := by
  refine keeps_modify kept fun b h => h.setFormatting ?_
  intro m t hm
  obtain ⟨e, he, heq⟩ := List.mem_map.mp hm
  split at heq
  · cases heq
    exact ht
  · exact h.formatting m t (heq ▸ he)

@[spec]
theorem reopen_keeps (n : Nat) {tag : StartTag} (ht : isVoidName tag.name = false) :
    Keeps kept (reopen n tag) := by
  mvcgen [reopen]
  all_goals simp [ht]

@[spec]
theorem reconstruct_keeps : Keeps kept reconstruct := by
  have hforM := @keeps_forM kept Formatting
  mvcgen [reconstruct, hforM]
  rename_i b h lost _ hlost n tag hentry
  subst hentry
  have hmem : .element n tag ∈ b.formatting :=
    List.takeWhile_subset _ (List.mem_reverse.mp hlost)
  simp [h.formatting n tag hmem]

@[spec]
theorem limitAlike_keeps (tag : StartTag) : Keeps kept (limitAlike tag) := by
  mvcgen [limitAlike]

@[spec]
theorem insertFormatting_keeps {tag : StartTag} (ht : isVoidName tag.name = false) :
    Keeps kept (insertFormatting tag) := by
  mvcgen [insertFormatting]
  rename_i n b h _
  refine h.setFormatting ?_
  intro m t hm
  rcases List.mem_cons.mp hm with heq | hm
  · cases heq
    exact ht
  · exact h.formatting m t hm

@[spec]
theorem closeAnyOther_keeps (name : String) : Keeps kept (closeAnyOther name) := by
  mvcgen [closeAnyOther]
  rename_i b h n _ _ _
  exact h.setOpen fun m hm => h.opened m (List.dropWhile_subset _ (List.drop_subset _ _ hm))

/-! ### Crossing end tags -/

theorem formattingTag_void {b : Builder} (h : b.Sound kept) {n : Nat} {tag : StartTag}
    (ht : formattingTag? b n = some tag) : isVoidName tag.name = false := by
  obtain ⟨e, he, heq⟩ := List.exists_of_findSome?_eq_some ht
  cases e with
  | marker => simp at heq
  | element m t =>
    obtain ⟨-, rfl⟩ : m = n ∧ t = tag := by simpa using heq
    exact h.formatting m t he

theorem mem_replace {n new m : Nat} {row : List Nat} (hm : m ∈ row.replace n new) :
    m ∈ row ∨ m = new := by
  induction row with
  | nil => simp at hm
  | cons k rest ih =>
    rw [List.replace_cons] at hm
    split at hm
    · rcases List.mem_cons.mp hm with rfl | hm
      · simp
      · simp [hm]
    · rcases List.mem_cons.mp hm with rfl | hm
      · simp
      · rcases ih hm with h | h <;> simp [h]

/-- What is left to be moved out in the end is one of the nodes that were moved on the way. -/
theorem untangle_keeps (furthest : Nat) (outer : List Nat) (step : Nat) {u : Untangling}
    (hu : kept.Clear u.last) :
    ⦃fun b => ⌜b.Sound kept⌝⦄ untangle furthest step outer u
    ⦃⇓ v => fun b => ⌜b.Sound kept ∧ kept.Clear v.last⌝⦄ := by
  induction outer generalizing step u with
  | nil =>
    rw [untangle]
    mvcgen
  | cons n outer ih =>
    have hforget := forgetFormatting_keeps kept
    have hremove := removeOpen_keeps kept
    have hreplace := fun new => @replaceFormatting_keeps (kept.also new)
    have hput := fun new => put_keeps (kept.also new)
    have hcreate := @createElement_holds kept
    rw [untangle]
    mvcgen [ih, hforget, hremove, hcreate, hreplace, hput, -forgetFormatting_keeps,
      -removeOpen_keeps, -replaceFormatting_keeps, -put_keeps]
    · exact fun _ _ => hu
    · exact fun _ _ => hu
    · rename_i b h _ tag htag
      exact formattingTag_void kept h htag
    · rename_i b h _ tag htag new _ _ _
      exact formattingTag_void kept h htag
    · rename_i new b h _
      refine h.1.setOpen fun m hm => ?_
      rcases mem_replace hm with hm | rfl
      · exact h.1.opened m hm
      · exact h.1.first
    · rename_i h
      exact ⟨h, h.first, hu⟩
    · rename_i h
      exact h.drop
    · rename_i h _ _ _ _ _
      exact fun _ _ => h.2

theorem mem_entryAfter {n : Nat} {entry e : Formatting} {entries : List Formatting}
    (he : e ∈ entryAfter n entry entries) : e = entry ∨ e ∈ entries := by
  induction entries with
  | nil => exact .inl (by simpa [entryAfter] using he)
  | cons f rest ih =>
    rw [entryAfter] at he
    split at he
    · simpa using he
    · rcases List.mem_cons.mp he with rfl | he
      · simp
      · rcases ih he with h | h <;> simp [h]

theorem mem_openInside {n new m : Nat} {row : List Nat} (hm : m ∈ openInside n new row) :
    m = new ∨ m ∈ row := by
  induction row with
  | nil => exact .inl (by simpa [openInside] using hm)
  | cons k rest ih =>
    rw [openInside] at hm
    split at hm
    · simpa using hm
    · rcases List.mem_cons.mp hm with rfl | hm
      · simp
      · rcases ih hm with h | h <;> simp [h]

theorem Sound.openInside {b : Builder} {new : Nat} (h : b.Sound (kept.also new)) (furthest : Nat) :
    ({ b with openElements := openInside furthest new b.openElements } : Builder).Sound kept := by
  refine h.drop.setOpen fun m hm => ?_
  rcases mem_openInside hm with rfl | hm
  · exact h.first
  · exact h.opened m hm

theorem renew_keeps (element : Nat) {tag : StartTag} (ht : isVoidName tag.name = false)
    {furthest : Nat} (hf : kept.Clear furthest) (bookmark : Option Nat) (new : Nat) :
    ⦃fun b => ⌜b.Sound ((kept.also furthest).also new) ∧ kept.Clear new⌝⦄
    renew element tag furthest bookmark new ⦃⇓ _ => fun b => ⌜b.Sound kept⌝⦄ := by
  have hput := put_keeps ((kept.also furthest).also new)
  have hreplace := @replaceFormatting_keeps ((kept.also furthest).also new)
  have hremove := removeOpen_keeps ((kept.also furthest).also new)
  mvcgen [renew, hput, hreplace, hremove, -put_keeps, -replaceFormatting_keeps, -removeOpen_keeps]
  · rename_i b h _
    have hmove := h.1.leads (h.1.arena.moveChildren furthest h.1.first) fun r hr =>
      (h.1.root r hr).moveChildren (hf r hr).2 new
    exact ⟨hmove, hmove.drop.first, h.2⟩
  · rename_i h _
    exact (Sound.openInside _ h furthest).drop
  · rename_i m _ b h _
    refine h.setFormatting fun n t hn => ?_
    rcases mem_entryAfter (List.mem_filter.mp hn).1 with heq | hn
    · cases heq
      exact ht
    · exact h.formatting n t hn
  · rename_i h _
    exact (Sound.openInside _ h furthest).drop

theorem adopt_keeps (element : Nat) {tag : StartTag} (ht : isVoidName tag.name = false)
    {furthest : Nat} (hf : kept.Clear furthest) (common : Nat) (between : List Nat) :
    ⦃fun b => ⌜b.Sound ((kept.also common).also furthest)⌝⦄
    adopt element tag furthest common between ⦃⇓ _ => fun b => ⌜b.Sound kept⌝⦄ := by
  have huntangle := @untangle_keeps ((kept.also common).also furthest) furthest between 1
    ⟨furthest, none⟩ hf
  have hput := put_keeps ((kept.also common).also furthest)
  have hcreate := @createElement_holds ((kept.also common).also furthest) ⟨.html, tag.name⟩ ht
    (plainAttributes tag)
  have hrenew := @renew_keeps (kept.also common) element tag ht furthest hf
  mvcgen [adopt, huntangle, hput, hcreate, hrenew, -put_keeps]
  · rename_i u b h _
    have hdetach := h.1.leads (h.1.arena.detach u.last) fun r hr =>
      (h.1.root r hr).detach (h.2 r hr).1
    exact ⟨hdetach, hdetach.placeIn hdetach.drop.first, h.2⟩
  · exact Builder.Sound.drop

/-- The elements outside one that is open are open, or there is only the document. -/
theorem canHold_outside {b : Builder} (h : b.Sound kept) (n : Nat) :
    b.arena.CanHold (((b.openElements.drop n).drop 1).headD 0) := by
  cases hout : (b.openElements.drop n).drop 1 with
  | nil => exact h.arena.root
  | cons m rest =>
    have hm : m ∈ (b.openElements.drop n).drop 1 := by simp [hout]
    exact h.opened m (List.drop_subset _ _ (List.drop_subset _ _ hm))

theorem not_endsScope_of_inScope {b : Builder} {ends : Tag → Bool} {element : Nat} {row : List Nat}
    (h : inScope.go b ends (· == element) row = true) {n : Nat}
    (hn : n ∈ row.takeWhile (· != element)) : ends (tagOf b n) = false := by
  induction row with
  | nil => exact absurd hn List.not_mem_nil
  | cons m rest ih =>
    by_cases hm : m = element
    · simp [hm] at hn
    · simp only [inScope.go, beq_eq_false_iff_ne.mpr hm, Bool.false_or, Bool.and_eq_true,
        Bool.not_eq_true'] at h
      rw [List.takeWhile_cons_of_pos (by simpa using hm)] at hn
      rcases List.mem_cons.mp hn with rfl | hn
      · exact h.1
      · exact ih h.2 hn

/-- The furthest block is special, and between it and the formatting element no scope ends. -/
theorem clear_furthest {b : Builder} (h : b.Sound kept) {element furthest : Nat}
    (hscope : inScope b Tag.endsScope (· == element) = true)
    (hinside : furthest ∈ b.openElements.takeWhile (· != element))
    (hspecial : (tagOf b furthest).isSpecial = true) : kept.Clear furthest := by
  intro r hr
  have hroot := h.root r hr
  refine ⟨?_, ?_⟩
  · rintro rfl
    have hends := not_endsScope_of_inScope hscope hinside
    rw [tagOf, hroot.tag] at hends
    exact absurd hends (by decide)
  · rintro rfl
    rw [tagOf, Arena.tagOf?_eq, hroot.document] at hspecial
    exact absurd hspecial (by decide)

@[spec]
theorem adoptionRounds_keeps (name : String) (rounds : Nat) :
    Keeps kept (adoptionRounds name rounds) := by
  induction rounds with
  | zero =>
    rw [adoptionRounds]
    mvcgen
  | succ rounds ih =>
    have hadopt := @adopt_keeps kept
    rw [adoptionRounds]
    mvcgen [ih, hadopt]
    · rename_i b h _ _ _ _ _ inside _ _
      exact h.setOpen fun m hm => h.opened m (List.drop_subset _ _ (List.drop_subset _ _ hm))
    · rename_i b h element tag hentry _ _ _ _ _ _
      obtain ⟨e, he, heq⟩ := List.exists_of_findSome?_eq_some hentry
      cases e with
      | marker => simp at heq
      | element n t =>
        obtain ⟨-, -, rfl⟩ : t.name = name ∧ n = element ∧ t = tag := by simpa using heq
        exact h.formatting n t (List.takeWhile_subset _ he)
    · rename_i b h element _ _ _ hscope _ _ furthest hfind
      have hfurthest : furthest ∈ b.openElements.takeWhile (· != element) :=
        List.mem_reverse.mp (List.mem_of_find?_eq_some hfind)
      have hspecial : (tagOf b furthest).isSpecial = true := by
        simpa using List.find?_some hfind
      exact clear_furthest kept h (by simpa using hscope) hfurthest hspecial
    · rename_i b h _ _ _ _ _ inside _ furthest hfind
      have hfurthest : furthest ∈ b.openElements :=
        List.takeWhile_subset _ (List.mem_reverse.mp (List.mem_of_find?_eq_some hfind))
      exact (h.keep (canHold_outside kept h inside.length)).keep (h.opened furthest hfurthest)

@[spec]
theorem closeFormatting_keeps (name : String) : Keeps kept (closeFormatting name) := by
  mvcgen [closeFormatting]

@[spec]
theorem closeEarlierLink_keeps : Keeps kept closeEarlierLink := by
  mvcgen [closeEarlierLink]

/-! ### Other vocabularies -/

@[spec]
theorem againIn_keeps (mode : Mode) : Keeps kept (againIn mode) := by
  mvcgen [againIn]

@[spec]
theorem insertForeign_keeps {space : Space} {name : String} (ht : Tag.isVoid ⟨space, name⟩ = false)
    (tag : StartTag) : Keeps kept (insertForeign space name tag) := by
  mvcgen [insertForeign]

@[spec]
theorem breakOut_keeps : Keeps kept breakOut := by
  mvcgen [breakOut]

theorem isVoid_of_space_ne {space : Space} (h : space ≠ .html) (name : String) :
    Tag.isVoid ⟨space, name⟩ = false := by
  cases space with
  | html => exact absurd rfl h
  | svg => rfl
  | mathml => rfl

theorem foreignTag_keeps (tag : StartTag) :
    ⦃fun b => ⌜b.Sound kept ∧ (currentTag b).space ≠ .html⌝⦄ foreignTag tag
    ⦃⇓ _ => fun b => ⌜b.Sound kept⌝⦄ := by
  mvcgen [foreignTag, foreignStart]
  · rename_i h
    exact h.1
  · rename_i h
    exact h.1
  · rename_i h _ _
    exact isVoid_of_space_ne h.2 _
  · rename_i h _ _
    exact h.1

end EmailTemplate.Html.Build
