import EmailTemplate.Proofs.Html.Arena

/-! The element of a document under construction. It stays where it is: only other nodes are moved, and
what is taken out of a node is not taken out of the document itself. -/

namespace EmailTemplate.Html

def NodeKind.tag? : NodeKind → Option Tag
  | element tag _ _ => some tag
  | _ => none

namespace Arena

/-- The element of a document: it stands in the document, and in no other node. -/
structure IsRoot (a : Arena) (r : Nat) : Prop where
  document : a.kindOf 0 = .document
  tag : a.tagOf? r = some ⟨.html, "html"⟩
  stands : r ∈ a.childrenOf 0
  only : ∀ n, r ∈ a.childrenOf n → n = 0

variable {a a' : Arena} {r : Nat}

theorem tagOf?_eq (a : Arena) (n : Nat) : a.tagOf? n = (a.kindOf n).tag? := by
  rw [tagOf?]
  cases a.kindOf n <;> rfl

theorem mem_childrenOf {n m : Nat} :
    m ∈ a.childrenOf n ↔ ∃ node, a[n]? = some node ∧ m ∈ node.children := by
  cases hn : a[n]? with
  | none => simp [childrenOf, hn]
  | some node => simp [childrenOf, hn]

theorem exists_of_tagOf? {n : Nat} {tag : Tag} (h : a.tagOf? n = some tag) :
    ∃ node, a[n]? = some node ∧ node.kind.tag? = some tag := by
  rw [tagOf?_eq, kindOf] at h
  cases hn : a[n]? with
  | none => simp [hn, NodeKind.tag?] at h
  | some node => exact ⟨node, rfl, by simpa [hn] using h⟩

theorem tagOf?_of_getElem? {n : Nat} {node : Node} (h : a[n]? = some node) :
    a.tagOf? n = node.kind.tag? := by
  simp [tagOf?_eq, kindOf, h]

/-! ### Changing a node -/

namespace IsRoot

/-- A change of a node that keeps what the node is, and whether the element stands in it. -/
theorem update (h : a.IsRoot r) {n : Nat} {f : Node → Node}
    (hdocument : ∀ node, a[n]? = some node → node.kind = .document → (f node).kind = .document)
    (htag : ∀ node, a[n]? = some node → (f node).kind.tag? = node.kind.tag?)
    (hchildren : ∀ node, a[n]? = some node → (r ∈ (f node).children ↔ r ∈ node.children)) :
    (a.update n f).IsRoot r := by
  have hmem : ∀ m, r ∈ (a.update n f).childrenOf m ↔ r ∈ a.childrenOf m := by
    intro m
    simp only [mem_childrenOf, getElem?_update]
    by_cases hnm : n = m
    · subst hnm
      cases hn : a[n]? with
      | none => simp
      | some node => simp [hchildren node hn]
    · simp [hnm]
  refine ⟨?_, ?_, (hmem 0).mpr h.stands, fun m hm => h.only m ((hmem m).mp hm)⟩
  · obtain ⟨node, hnode, -⟩ := mem_childrenOf.mp h.stands
    have hkind : node.kind = .document := by simpa [kindOf, hnode] using h.document
    by_cases hn : n = 0
    · subst hn
      simp [kindOf, getElem?_update, hnode, hdocument node hnode hkind]
    · simp [kindOf, getElem?_update, hn, hnode, hkind]
  · obtain ⟨node, hnode, hkind⟩ := exists_of_tagOf? h.tag
    by_cases hn : n = r
    · subst hn
      have hnew : (a.update n f)[n]? = some (f node) := by simp [getElem?_update, hnode]
      rw [tagOf?_of_getElem? hnew, htag node hnode, hkind]
    · have hnew : (a.update n f)[r]? = some node := by simp [getElem?_update, hn, hnode]
      rw [tagOf?_of_getElem? hnew, hkind]

theorem setChildren (h : a.IsRoot r) (n : Nat) {f : List Nat → List Nat}
    (hf : ∀ row, r ∈ f row ↔ r ∈ row) :
    (a.update n fun node => { node with children := f node.children }).IsRoot r :=
  h.update (fun _ _ hkind => hkind) (fun _ _ => rfl) fun node _ => hf node.children

theorem setParent (h : a.IsRoot r) (n : Nat) (p : Option Nat) :
    (a.update n fun node => { node with parent := p }).IsRoot r :=
  h.update (fun _ _ hkind => hkind) (fun _ _ => rfl) fun _ _ => Iff.rfl

theorem lt_size (h : a.IsRoot r) : r < a.size := by
  obtain ⟨node, hnode, -⟩ := exists_of_tagOf? h.tag
  exact (Array.getElem?_eq_some_iff.mp hnode).1

/-! ### Making and moving nodes -/

theorem create (h : a.IsRoot r) (kind : NodeKind) : (a.create kind).1.IsRoot r := by
  have hold : ∀ {m : Nat} {node : Node}, a[m]? = some node → (a.create kind).1[m]? = some node := by
    intro m node hm
    have hlt : m < a.size := (Array.getElem?_eq_some_iff.mp hm).1
    simp [Arena.create, Array.getElem?_push_lt hlt, ← hm]
  obtain ⟨document, hzero, hrow⟩ := mem_childrenOf.mp h.stands
  obtain ⟨node, hnode, htag⟩ := exists_of_tagOf? h.tag
  have hkind : document.kind = .document := by simpa [kindOf, hzero] using h.document
  refine ⟨?_, ?_, mem_childrenOf.mpr ⟨document, hold hzero, hrow⟩, fun m hm => ?_⟩
  · simp [kindOf, hold hzero, hkind]
  · rw [tagOf?_of_getElem? (hold hnode), htag]
  · obtain ⟨other, hother, hmem⟩ := mem_childrenOf.mp hm
    rw [Arena.create, Array.getElem?_push] at hother
    split at hother
    · rw [← Option.some.inj hother] at hmem
      exact absurd hmem List.not_mem_nil
    · exact h.only m (mem_childrenOf.mpr ⟨other, hother, hmem⟩)

/-- What is made anew is neither the element nor the document. -/
theorem create_ne (h : a.IsRoot r) (kind : NodeKind) :
    (a.create kind).2 ≠ r ∧ (a.create kind).2 ≠ 0 := by
  have hlt := h.lt_size
  simp only [Arena.create]
  omega

theorem createElement (h : a.IsRoot r) (tag : Tag) (attributes : List Attribute) :
    (a.createElement tag attributes).1.IsRoot r := by
  rw [Arena.createElement]
  split
  · exact (h.create _).create _
  · exact h.create _

theorem createElement_ne (h : a.IsRoot r) (tag : Tag) (attributes : List Attribute) :
    (a.createElement tag attributes).2 ≠ r ∧ (a.createElement tag attributes).2 ≠ 0 := by
  rw [Arena.createElement]
  split
  · exact (h.create _).create_ne _
  · exact h.create_ne _

section Moving

variable (h : a.IsRoot r) {n : Nat} (hn : n ≠ r)
include h hn

theorem detach : (a.detach n).IsRoot r := by
  rw [Arena.detach]
  split
  · exact h
  · next p _ =>
    have hrow := h.setChildren p (f := fun row => row.filter (· != n)) fun row => by
      simp [hn.symm]
    exact hrow.setParent n none

theorem append (p : Nat) : (a.append p n).IsRoot r :=
  ((h.detach hn).setParent n (some p)).setChildren p (f := fun row => row ++ [n]) fun row => by
    simp [hn.symm]

theorem insertBefore (sibling : Nat) : (a.insertBefore sibling n).IsRoot r := by
  have hmem : ∀ row, r ∈ putBefore n sibling row ↔ r ∈ row := by
    intro row
    induction row with
    | nil => simp [putBefore, hn.symm]
    | cons c rest ih =>
      rw [putBefore]
      split
      · simp [hn.symm]
      · simp [ih]
  rw [Arena.insertBefore]
  split
  · exact h
  · next p _ => exact ((h.detach hn).setParent n (some p)).setChildren p hmem

end Moving

theorem extendText? (h : a.IsRoot r) {n : Option Nat} {s : String}
    (he : a.extendText? n s = some a') : a'.IsRoot r := by
  obtain ⟨n, content, hkind, rfl⟩ := exists_update_of_extendText? he
  refine h.update ?_ ?_ fun _ _ => Iff.rfl
  · intro node hnode hdocument
    rw [hkind node hnode] at hdocument
    cases hdocument
  · intro node hnode
    rw [hkind node hnode]
    rfl

theorem appendText (h : a.IsRoot r) (p : Nat) (s : String) : (a.appendText p s).IsRoot r := by
  rw [Arena.appendText]
  split
  · next he => exact h.extendText? he
  · exact (h.create _).append (h.create_ne (.text s)).1 p

theorem insertTextBefore (h : a.IsRoot r) (sibling : Nat) (s : String) :
    (a.insertTextBefore sibling s).IsRoot r := by
  rw [Arena.insertTextBefore]
  dsimp only
  split
  · next he => exact h.extendText? he
  · exact (h.create _).insertBefore (h.create_ne (.text s)).1 sibling

/-- The children of a node are moved one by one, and the element is none of them. -/
theorem moveChildren (h : a.IsRoot r) {source : Nat} (hsource : source ≠ 0) (target : Nat) :
    (a.moveChildren source target).IsRoot r := by
  have hnone : r ∉ a.childrenOf source := fun hr => hsource (h.only source hr)
  rw [Arena.moveChildren]
  generalize a.childrenOf source = row at hnone
  induction row generalizing a with
  | nil => exact h
  | cons n row ih =>
    rw [List.mem_cons, not_or] at hnone
    exact ih (h.append (Ne.symm hnone.1) target) hnone.2

theorem addAttributes (h : a.IsRoot r) (n : Nat) (more : List Attribute) :
    (a.addAttributes n more).IsRoot r := by
  refine h.update ?_ ?_ fun _ _ => Iff.rfl
  · intro node _ hkind
    simp only [hkind]
  · intro node _
    cases node.kind <;> rfl

end IsRoot

/-! ### As a tree -/

/-- A row of nodes with an element in it makes a row of a tree with an element in it. -/
theorem roots_forestOf {depth : Nat} {row : List Nat} {tag : Tag} (hr : r ∈ row)
    (htag : a.tagOf? r = some tag) : (a.forestOf (depth + 1) row).roots ≠ [] := by
  have hkind : ∃ attributes content, a.kindOf r = .element tag attributes content := by
    rw [tagOf?_eq] at htag
    cases hk : a.kindOf r with
    | element tag' attributes content =>
      obtain rfl : tag' = tag := by simpa [hk, NodeKind.tag?] using htag
      exact ⟨attributes, content, rfl⟩
    | _ => simp [hk, NodeKind.tag?] at htag
  obtain ⟨attributes, content, hkind⟩ := hkind
  rw [forestOf]
  induction row with
  | nil => exact absurd hr List.not_mem_nil
  | cons n row ih =>
    rw [List.foldr_cons]
    rcases List.mem_cons.mp hr with rfl | hr
    · rw [hkind]
      exact List.cons_ne_nil _ _
    · cases hk : a.kindOf n with
      | element => exact List.cons_ne_nil _ _
      | _ => exact ih hr

theorem IsRoot.toForest (h : a.IsRoot r) : a.toForest.roots ≠ [] := roots_forestOf h.stands h.tag

end Arena

end EmailTemplate.Html
