import EmailTemplate.Adaptation.Run
import Mathlib.Data.List.Nodup
import Mathlib.Data.List.Perm.Subperm

/-! Wrapped blocks and recorded blocks. Every wrapped block is listed, but its placeholder is recorded
only if no other placeholder has its name. -/

namespace EmailTemplate

def blockNames (placeholders : List Placeholder) : List String :=
  (placeholders.filter fun p => p.kind = .block).map (·.name)

theorem mem_blockNames {placeholders : List Placeholder} {name : String} :
    name ∈ blockNames placeholders ↔ ∃ p ∈ placeholders, p.kind = .block ∧ p.name = name := by
  simp [blockNames, and_assoc]

theorem blockNames_sublist (placeholders : List Placeholder) :
    (blockNames placeholders).Sublist (placeholders.map (·.name)) :=
  List.filter_sublist.map _

theorem blockNames_append (placeholders : List Placeholder) (p : Placeholder) :
    blockNames (placeholders ++ [p]) =
      blockNames placeholders ++ if p.kind = .block then [p.name] else [] := by
  by_cases h : p.kind = .block
  · simp [blockNames, List.filter_append, h]
  · simp [blockNames, List.filter_append, h]

namespace Adaptation

/-- No name is recorded twice, the recorded blocks are among the wrapped ones in their order, and the
name of every wrapped block is recorded, if only for something else. -/
structure Recorded (a : Adaptation) : Prop where
  nodup : (a.placeholders.map (·.name)).Nodup
  wrapped : (blockNames a.placeholders).Sublist a.blocks
  known : ∀ name ∈ a.blocks, name ∈ a.placeholders.map (·.name)

theorem recorded_start (html : String) : (start html).Recorded where
  nodup := List.nodup_nil
  wrapped := List.nil_sublist _
  known _ h := absurd h List.not_mem_nil

theorem record_of_mem {a : Adaptation} {p : Placeholder}
    (h : p.name ∈ a.placeholders.map (·.name)) : a.record p = a := by
  obtain ⟨q, hq, hname⟩ := List.mem_map.mp h
  have hany : a.placeholders.any (·.name == p.name) = true :=
    List.any_eq_true.mpr ⟨q, hq, beq_iff_eq.mpr hname⟩
  rw [record, if_pos hany]

theorem record_of_not_mem {a : Adaptation} {p : Placeholder}
    (h : p.name ∉ a.placeholders.map (·.name)) :
    a.record p = { a with placeholders := a.placeholders ++ [p] } := by
  have hany : ¬ a.placeholders.any (·.name == p.name) = true := by
    intro hany
    obtain ⟨q, hq, hname⟩ := List.any_eq_true.mp hany
    exact h (List.mem_map.mpr ⟨q, hq, beq_iff_eq.mp hname⟩)
  rw [record, if_neg hany]

theorem nodup_concat {a : Adaptation} {p : Placeholder} (hnodup : (a.placeholders.map (·.name)).Nodup)
    (h : p.name ∉ a.placeholders.map (·.name)) :
    ((a.placeholders ++ [p]).map (·.name)).Nodup := by
  rw [List.map_append]
  exact hnodup.append (List.nodup_singleton _) (List.disjoint_singleton.mpr h)

namespace Recorded

variable {a b : Adaptation}

theorem congr (h : a.Recorded) (hplaceholders : b.placeholders = a.placeholders)
    (hblocks : b.blocks = a.blocks) : b.Recorded := by
  obtain ⟨hnodup, hwrapped, hknown⟩ := h
  refine ⟨?_, ?_, ?_⟩
  · rwa [hplaceholders]
  · rwa [hplaceholders, hblocks]
  · rwa [hplaceholders, hblocks]

theorem record (h : a.Recorded) {p : Placeholder} (hkind : p.kind ≠ .block) :
    (a.record p).Recorded := by
  by_cases hmem : p.name ∈ a.placeholders.map (·.name)
  · rwa [record_of_mem hmem]
  · rw [record_of_not_mem hmem]
    refine ⟨nodup_concat h.nodup hmem, ?_, fun name hname => ?_⟩
    · show (blockNames (a.placeholders ++ [p])).Sublist a.blocks
      simp only [blockNames_append, if_neg hkind, List.append_nil]
      exact h.wrapped
    · simp [h.known name hname]

/-- A block whose name is taken is listed all the same. -/
theorem addBlock (h : a.Recorded) (block : Landmark.Block) : (a.addBlock block).Recorded := by
  have hlisted : ∀ name ∈ a.blocks ++ [block.name],
      name ∈ a.placeholders.map (·.name) ∨ name = block.name := by
    intro name hname
    rcases List.mem_append.mp hname with hname | hname
    · exact .inl (h.known name hname)
    · exact .inr (List.mem_singleton.mp hname)
  by_cases hmem : block.name ∈ a.placeholders.map (·.name)
  · rw [Adaptation.addBlock, record_of_mem hmem]
    refine ⟨h.nodup, ?_, fun name hname => ?_⟩
    · exact h.wrapped.trans (List.sublist_append_left _ _)
    · rcases hlisted name hname with hname | rfl
      · exact hname
      · exact hmem
  · rw [Adaptation.addBlock, record_of_not_mem hmem]
    refine ⟨nodup_concat h.nodup hmem, ?_, fun name hname => ?_⟩
    · simp only [blockNames_append, if_true]
      exact h.wrapped.append (List.Sublist.refl _)
    · rcases hlisted name hname with hname | rfl
      · simp [hname]
      · simp

theorem foldl {α : Type} {step : Adaptation → α → Adaptation}
    (hstep : ∀ a x, a.Recorded → (step a x).Recorded) (h : a.Recorded) (xs : List α) :
    (xs.foldl step a).Recorded :=
  List.foldlRecOn xs step h fun a ha x _ => hstep a x ha

theorem putToken (h : a.Recorded) (name : String) (v : Html.Visit) :
    (a.putToken name v).Recorded := by
  refine Recorded.record (h.congr ?_ ?_) ?_
  · rfl
  · rfl
  · simp

theorem preheader (h : a.Recorded) (fallback : Bool) : (a.runPreheader fallback).Recorded := by
  rw [runPreheader]
  split
  · next v _ => exact (h.putToken "preheader" v).congr rfl rfl
  · cases fallback with
    | false => exact h
    | true =>
      cases a.document.body? with
      | none => exact h
      | some body =>
        refine Recorded.record (h.congr ?_ ?_) ?_
        · rfl
        · rfl
        · simp

theorem title (h : a.Recorded) : a.runTitle.Recorded := by
  rw [runTitle]
  split
  · next v _ => exact (h.putToken "title" v).congr rfl rfl
  · exact h

theorem addCta (h : a.Recorded) (c : Cta) : (a.addCta c).Recorded := by
  refine Recorded.record (Recorded.record (h.congr ?_ ?_) ?_) ?_
  · rfl
  · rfl
  · simp
  · simp

theorem replaceFound (h : a.Recorded) (index : Nat) (markup : List Char) (contact : Contact) :
    (a.replaceFound index markup contact).Recorded := by
  rw [Adaptation.replaceFound]
  cases contact.pattern.find? markup with
  | none => exact h
  | some found =>
    rw [Option.elim_some, replaceContact]
    split
    · exact h
    · refine Recorded.record (h.congr ?_ ?_) ?_
      · rfl
      · rfl
      · simp

theorem brand (h : a.Recorded) : a.runBrand.Recorded := by
  rw [runBrand]
  split
  · exact h
  · next body _ => exact h.foldl (fun a contact ha => ha.replaceFound _ _ contact) Contact.all

theorem comments (h : a.Recorded) (preserve : Bool) : (a.runComments preserve).Recorded := by
  rw [runComments]
  split
  · exact h
  · exact h.congr rfl rfl

theorem run (h : a.Recorded) (o : AdaptOptions) (s : Stage) : (s.run o a).Recorded := by
  cases s with
  | preheader => exact h.preheader o.preheaderFallback
  | title => exact h.title
  | ctas => exact h.foldl (fun a c ha => ha.addCta c) _
  | blocks => exact h.foldl (fun a block ha => ha.addBlock block) _
  | brand => exact h.brand
  | comments => exact h.comments o.preserveComments

theorem blocks_eq_iff (h : a.Recorded) : a.blocks = blockNames a.placeholders ↔
    a.blocks.Nodup ∧ ∀ p ∈ a.placeholders, p.kind ≠ .block → p.name ∉ a.blocks := by
  constructor
  · intro heq
    refine ⟨?_, fun p hp hkind hmem => ?_⟩
    · rw [heq]
      exact h.nodup.sublist (blockNames_sublist _)
    · rw [heq] at hmem
      obtain ⟨q, hq, hblock, hname⟩ := mem_blockNames.mp hmem
      have hsame : q = p := List.inj_on_of_nodup_map h.nodup hq hp hname
      exact hkind (hsame ▸ hblock)
  · rintro ⟨hnodup, hother⟩
    have hsub : a.blocks ⊆ blockNames a.placeholders := by
      intro name hname
      obtain ⟨p, hp, rfl⟩ := List.mem_map.mp (h.known name hname)
      by_cases hkind : p.kind = .block
      · exact mem_blockNames.mpr ⟨p, hp, hkind, rfl⟩
      · exact absurd hname (hother p hp hkind)
    have hlength : a.blocks.length ≤ (blockNames a.placeholders).length :=
      (hnodup.subperm hsub).length_le
    exact (h.wrapped.eq_of_length_le hlength).symm

end Recorded

end Adaptation

/-- The wrapped blocks are the recorded ones exactly when no name is wrapped twice and no wrapped name
is that of another kind of placeholder. -/
theorem hasBlocks_eq_iff (o : AdaptOptions) (html : String) :
    (adapt o html).details.hasBlocks = blockNames (adapt o html).placeholders ↔
      (adapt o html).details.hasBlocks.Nodup ∧
        ∀ p ∈ (adapt o html).placeholders, p.kind ≠ .block →
          p.name ∉ (adapt o html).details.hasBlocks := by
  have hrun : (Stage.runAll o Stage.all (.start html)).Recorded :=
    (Adaptation.recorded_start html).foldl (fun a s ha => ha.run o s) Stage.all
  exact hrun.blocks_eq_iff

/-- A block that has the name of the title, and a block that is asked for twice. -/
theorem hasBlocks_ne_blockNames :
    (adapt ⟨["title"], .auto, false, true⟩ "<h1 class=title>Hi</h1>").details.hasBlocks ≠
      blockNames (adapt ⟨["title"], .auto, false, true⟩ "<h1 class=title>Hi</h1>").placeholders ∧
    (adapt ⟨["hero", "hero"], .auto, false, true⟩ "<p class=hero>Hi").details.hasBlocks ≠
      blockNames (adapt ⟨["hero", "hero"], .auto, false, true⟩ "<p class=hero>Hi").placeholders := by
  decide +kernel

end EmailTemplate
