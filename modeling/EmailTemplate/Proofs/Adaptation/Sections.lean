import EmailTemplate.Proofs.Adaptation.Wrapping
import Mathlib.Data.List.Nodup

/-! What the block stage adds to a document, the resolution of sections takes off again, together
with the elements whose names the data does not show. -/

namespace EmailTemplate

open Html Template

/-! ### Names of blocks -/

theorem blockNameChar {name : String} (h : isBlockName name = true) {c : Char}
    (hc : c ∈ name.toList) : isNameChar c = true ∧ escapeTextChar c = [c] := by
  simp only [isBlockName, Bool.and_eq_true, List.all_eq_true, Bool.or_eq_true] at h
  rcases h.2 c hc with (hx | hx) | hx
  · have hlt := isAsciiAlphanumeric_lt hx
    exact ⟨by simp [isNameChar, Text.isWord, hlt, hx], (escape_alphanumeric hx).1⟩
  · obtain rfl := beq_iff_eq.mp hx
    decide
  · obtain rfl := beq_iff_eq.mp hx
    decide

theorem isName_of_isBlockName {name : String} (h : isBlockName name = true) :
    IsName name.toList := by
  refine ⟨?_, fun c hc => (blockNameChar h hc).1⟩
  intro he
  simp [isBlockName, String.toList_eq_nil_iff.mp he] at h

theorem literal_section {name : String} (h : isBlockName name = true) :
    Literal (sectionOpener name.toList) ∧ Literal (sectionCloser name.toList) := by
  have hname : Literal name.toList := literal_of_forall fun c hc => (blockNameChar h hc).2
  have hopen : Literal sectionMark := by unfold Literal; decide
  have hend : Literal sectionEndMark := by unfold Literal; decide
  have hclose : Literal closeBraces := by unfold Literal; decide
  unfold Literal at *
  simp only [sectionOpener, sectionCloser, List.flatMap_append, hname, hopen, hend, hclose, and_self]

/-! ### The stage -/

theorem Landmark.block?_name {visits : List Visit} {name : String} {b : Landmark.Block}
    (h : Landmark.block? visits name = some b) : b.name = name := by
  obtain ⟨pattern, -, hp⟩ := List.exists_of_findSome?_eq_some h
  obtain ⟨v, -, rfl⟩ := Option.map_eq_some_iff.mp hp
  rfl

theorem Landmark.blocks_names (d : Forest) (names : List String) :
    ((Landmark.blocks d names).map (·.name)).Sublist names := by
  simp only [Landmark.blocks]
  induction names with
  | nil => simp
  | cons n names ih =>
    cases h : Landmark.block? d.visits n with
    | none => simpa [h] using ih.cons n
    | some b => simpa [h, Landmark.block?_name h] using ih

def namesAt (blocks : List Landmark.Block) (i : Nat) : List String :=
  (blocks.filter fun b => b.visit.index == i).map (·.name)

theorem mem_namesAt {blocks : List Landmark.Block} {i : Nat} {name : String} :
    name ∈ namesAt blocks i ↔ ∃ b ∈ blocks, b.visit.index = i ∧ b.name = name := by
  simp [namesAt, and_assoc]

theorem namesAt_append (blocks : List Landmark.Block) (b : Landmark.Block) :
    namesAt (blocks ++ [b]) = addName (namesAt blocks) b.visit.index b.name := by
  funext j
  by_cases h : b.visit.index = j
  · simp [namesAt, addName, h]
  · simp [namesAt, addName, h, Ne.symm h]

theorem Html.Forest.wrapAll_nil (f : Forest) (index : Nat) : f.wrapAll (fun _ => []) index = f := by
  induction f generalizing index with
  | nil => rfl
  | text s rest ih => exact congrArg (Forest.text s) (ih index)
  | comment s rest ih => exact congrArg (Forest.comment s) (ih index)
  | doctype n rest ih => exact congrArg (Forest.doctype n) (ih index)
  | element tag attributes children rest ihc ihr =>
    simp only [Forest.wrapAll, nested, Element.followedBy, ihc, ihr]

@[simp]
theorem Adaptation.record_document (a : Adaptation) (p : Placeholder) :
    (a.record p).document = a.document := by
  rw [Adaptation.record]
  split
  · rfl
  · rfl

theorem Adaptation.foldl_addBlock_document (blocks : List Landmark.Block) (a : Adaptation) :
    (blocks.foldl Adaptation.addBlock a).document = a.document.wrapAll (namesAt blocks) 0 := by
  induction blocks using List.reverseRecOn with
  | nil => exact (a.document.wrapAll_nil 0).symm
  | append_singleton blocks b ih =>
    rw [List.foldl_concat, namesAt_append]
    have hwrap := wrap_wrapAll (namesAt blocks) b.name a.document 0 b.visit.index
    rw [Nat.zero_add, ← ih] at hwrap
    rw [← hwrap]
    exact Adaptation.record_document _ _

/-- The places of the blocks that the data does not show. -/
def hiddenPlaces (data : Json.Value) (blocks : List Landmark.Block) (i : Nat) : Bool :=
  blocks.any fun b => b.visit.index == i && !isVisible data b.name.toList

theorem hiddenPlaces_eq (data : Json.Value) (blocks : List Landmark.Block) (i : Nat) :
    hiddenPlaces data blocks i = !(namesAt blocks i).all fun n => isVisible data n.toList := by
  rw [Bool.eq_iff_iff]
  simp [hiddenPlaces, namesAt]

/-- The markup of a wrapped document, its sections resolved. -/
theorem resolveSections_wrapAll (visible : List Char → Bool) (d : Forest)
    {blocks : List Landmark.Block} (hnodup : (blocks.map (·.name)).Nodup)
    (hvalid : ∀ b ∈ blocks, isBlockName b.name = true) (hd : Outline.Unmarked (d.print false false)) :
    resolveSections visible ((d.wrapAll (namesAt blocks) 0).print false false) =
      (d.prune fun i => !(namesAt blocks i).all fun n => visible n.toList).print false false := by
  have hmem : ∀ i, ∀ n ∈ namesAt blocks i, isBlockName n = true := by
    intro i n hn
    obtain ⟨b, hb, -, rfl⟩ := mem_namesAt.mp hn
    exact hvalid b hb
  have hplace : ∀ i j n, n ∈ namesAt blocks i → n ∈ namesAt blocks j → i = j := by
    intro i j n hi hj
    obtain ⟨b, hb, rfl, hbn⟩ := mem_namesAt.mp hi
    obtain ⟨c, hc, rfl, hcn⟩ := mem_namesAt.mp hj
    rw [List.inj_on_of_nodup_map hnodup hb hc (hbn.trans hcn.symm)]
  have hscoped := Forest.outline_scoped (fun i n hn => isName_of_isBlockName (hmem i n hn))
    (fun i => hnodup.sublist (List.filter_sublist.map _)) hplace d false false 0
  rw [← Forest.outline_print (fun i n hn => literal_section (hmem i n hn)),
    Outline.resolveSections_print _ hscoped (by rwa [Forest.outline_plain]), Forest.outline_shown]
  rfl

theorem Html.Forest.prune_none (f : Forest) {gone : Nat → Bool} (h : ∀ i, gone i = false) :
    f.prune gone = f := by
  have hfrom : ∀ index, f.pruneFrom gone index = f := by
    induction f with
    | nil => exact fun _ => rfl
    | text s rest ih => exact fun index => congrArg (Forest.text s) (ih index)
    | comment s rest ih => exact fun index => congrArg (Forest.comment s) (ih index)
    | doctype n rest ih => exact fun index => congrArg (Forest.doctype n) (ih index)
    | element tag attributes children rest ihc ihr =>
      intro index
      simp [Forest.pruneFrom, h, ihc, ihr]
  exact hfrom 0

/-- Resolving the sections of a document in which blocks were wrapped gives the document as it was
before, without the elements of the names that the data does not show. -/
theorem resolveBlocks_run_blocks (o : AdaptOptions) (a : Adaptation) (data : Json.Value)
    (hnodup : o.detectBlocks.Nodup) (hvalid : ∀ n ∈ o.detectBlocks, isBlockName n = true)
    (hopen : ¬ sectionMark <:+: a.document.toHtml.toList)
    (hend : ¬ sectionEndMark <:+: a.document.toHtml.toList) :
    let blocks := Landmark.blocks a.document o.detectBlocks
    let markup := (Stage.blocks.run o a).document.toHtml.toList
    resolveBlocks markup data = (a.document.prune (hiddenPlaces data blocks)).toHtml.toList ∧
      ((∀ n ∈ o.detectBlocks, isVisible data n.toList = true) →
        resolveBlocks markup data = a.document.toHtml.toList) := by
  intro blocks markup
  have hsub := Landmark.blocks_names a.document o.detectBlocks
  have hfilter : o.detectBlocks.filter (fun n => isBlockName n) = o.detectBlocks :=
    List.filter_eq_self.mpr hvalid
  have hmarkup : markup = (a.document.wrapAll (namesAt blocks) 0).print false false := by
    simp only [markup, Stage.run, Adaptation.runBlocks, hfilter]
    rw [Adaptation.foldl_addBlock_document, Forest.toHtml, String.toList_ofList]
  have hblock : ∀ b ∈ blocks, b.name ∈ o.detectBlocks :=
    fun b hb => hsub.subset (List.mem_map_of_mem hb)
  have hd : Outline.Unmarked (a.document.print false false) := by
    rw [Forest.toHtml, String.toList_ofList] at hopen hend
    exact ⟨hopen, hend⟩
  have hresolve : resolveBlocks markup data =
      (a.document.prune (hiddenPlaces data blocks)).toHtml.toList := by
    rw [hmarkup, resolveBlocks, resolveSections_wrapAll _ _ (hnodup.sublist hsub)
      (fun b hb => hvalid b.name (hblock b hb)) hd, Forest.toHtml, String.toList_ofList]
    simp only [← hiddenPlaces_eq]
    rfl
  refine ⟨hresolve, fun hall => ?_⟩
  rw [hresolve, a.document.prune_none]
  intro i
  simp only [hiddenPlaces, List.any_eq_false]
  intro b hb
  simp [hall b.name (hblock b hb)]

/-- A body that is a block, and a paragraph that is two of them, one hidden. -/
theorem resolveBlocks_run_blocks_body :
    String.ofList (resolveBlocks (Stage.blocks.run ⟨["hero", "hero-2", "body"], .auto, true, false⟩
      (.start "<body class=body>{<p class=hero-2>A<b id=body>B</b></p>}")).document.toHtml.toList
      (.object [("blocks",
        .object [("body", .bool true), ("hero", .bool true), ("hero-2", .bool false)])])) =
      "<html><head></head><body class=\"body\">{}</body></html>" := by
  rw [(resolveBlocks_run_blocks _ _ _ (by decide) (by decide) (by decide +kernel)
    (by decide +kernel)).1]
  decide +kernel

end EmailTemplate
