import EmailTemplate.Html.Construction.Arena
import EmailTemplate.Html.Printer
import Mathlib.Tactic.Common

/-! A document under construction in which void elements stay empty: what is put somewhere is put
into a node that is not void. -/

namespace EmailTemplate.Html

def NodeKind.isVoid : NodeKind → Bool
  | element tag _ _ => tag.isVoid
  | _ => false

def NodeKind.content? : NodeKind → Option Nat
  | element _ _ content => content
  | _ => none

namespace Arena

variable {a a' : Arena}

/-- There is such a node, and it is no void element. -/
def CanHold (a : Arena) (n : Nat) : Prop := ∃ node, a[n]? = some node ∧ node.kind.isVoid = false

/-- Void elements are empty, and whatever a node stands in or has for its content can hold it. -/
structure Sound (a : Arena) : Prop where
  root : a.CanHold 0
  children : ∀ (n : Nat) (node : Node), a[n]? = some node → node.kind.isVoid = true → node.children = []
  parent : ∀ (n : Nat) (node : Node) (p : Nat), a[n]? = some node → node.parent = some p → a.CanHold p
  content : ∀ (n : Nat) (node : Node) (p : Nat), a[n]? = some node → node.kind.content? = some p → a.CanHold p

/-- The later document is sound, and what could hold something still can. -/
structure Leads (a a' : Arena) : Prop where
  sound : a'.Sound
  grows : ∀ n, a.CanHold n → a'.CanHold n

theorem Sound.leads (h : a.Sound) : a.Leads a := ⟨h, fun _ hn => hn⟩

theorem Leads.trans {a'' : Arena} (h : a.Leads a') (h' : a'.Leads a'') : a.Leads a'' :=
  ⟨h'.sound, fun n hn => h'.grows n (h.grows n hn)⟩

theorem Sound.parentOf (h : a.Sound) {n p : Nat} (hp : a.parentOf n = some p) : a.CanHold p := by
  obtain ⟨node, hnode, hparent⟩ := Option.bind_eq_some_iff.mp hp
  exact h.parent n node p hnode hparent

theorem Sound.contentOf? (h : a.Sound) {n p : Nat} (hp : a.contentOf? n = some p) :
    a.CanHold p := by
  cases hn : a[n]? with
  | none => simp [Arena.contentOf?, kindOf, hn] at hp
  | some node =>
    refine h.content n node p hn ?_
    cases hk : node.kind with
    | element tag attributes content =>
      simpa [Arena.contentOf?, kindOf, hn, hk, NodeKind.content?] using hp
    | _ => simp [Arena.contentOf?, kindOf, hn, hk] at hp

/-! ### Changing a node -/

theorem getElem?_update (a : Arena) (n m : Nat) (f : Node → Node) :
    (a.update n f)[m]? = if n = m then a[m]?.map f else a[m]? := by
  rw [update]
  cases hn : a[n]? with
  | none =>
    by_cases hnm : n = m
    · subst hnm
      simp [hn]
    · simp [hnm]
  | some node =>
    by_cases hnm : n = m
    · subst hnm
      obtain ⟨hlt, rfl⟩ := Array.getElem?_eq_some_iff.mp hn
      simp [hlt]
    · simp [Array.getElem?_setIfInBounds_ne hnm, hnm]

theorem getElem?_update_eq_some {n m : Nat} {f : Node → Node} {node : Node}
    (h : (a.update n f)[m]? = some node) :
    (∃ old, a[n]? = some old ∧ m = n ∧ node = f old) ∨ a[m]? = some node := by
  rw [getElem?_update] at h
  split at h
  · next hnm =>
    subst hnm
    obtain ⟨old, hold, rfl⟩ := Option.map_eq_some_iff.mp h
    exact .inl ⟨old, hold, rfl, rfl⟩
  · exact .inr h

/-- A change that keeps what a node is, and keeps the node sound. -/
theorem Sound.update (h : a.Sound) {n : Nat} {f : Node → Node}
    (hvoid : ∀ node, a[n]? = some node → (f node).kind.isVoid = node.kind.isVoid)
    (hcontent : ∀ node, a[n]? = some node → (f node).kind.content? = node.kind.content?)
    (hchildren : ∀ node, a[n]? = some node → node.kind.isVoid = true → (f node).children = [])
    (hparent : ∀ node p, a[n]? = some node → (f node).parent = some p → a.CanHold p) :
    a.Leads (a.update n f) := by
  have hgrows : ∀ m, a.CanHold m → (a.update n f).CanHold m := by
    rintro m ⟨node, hm, hv⟩
    by_cases hnm : n = m
    · subst hnm
      exact ⟨f node, by simp [getElem?_update, hm], by rw [hvoid node hm, hv]⟩
    · exact ⟨node, by simp [getElem?_update, hnm, hm], hv⟩
  refine ⟨⟨hgrows 0 h.root, ?_, ?_, ?_⟩, hgrows⟩
  · intro m node hm hv
    obtain ⟨old, hold, rfl, rfl⟩ | hm := getElem?_update_eq_some hm
    · exact hchildren old hold (hvoid old hold ▸ hv)
    · exact h.children m node hm hv
  · intro m node p hm hp
    obtain ⟨old, hold, rfl, rfl⟩ | hm := getElem?_update_eq_some hm
    · exact hgrows p (hparent old p hold hp)
    · exact hgrows p (h.parent m node p hm hp)
  · intro m node p hm hp
    obtain ⟨old, hold, rfl, rfl⟩ | hm := getElem?_update_eq_some hm
    · exact hgrows p (h.content m old p hold (hcontent old hold ▸ hp))
    · exact hgrows p (h.content m node p hm hp)

/-- Children may go from any node, and come to a node that can hold them. -/
theorem Sound.setChildren (h : a.Sound) {n : Nat} {f : List Nat → List Nat}
    (hf : a.CanHold n ∨ f [] = []) :
    a.Leads (a.update n fun node => { node with children := f node.children }) := by
  refine h.update (fun _ _ => rfl) (fun _ _ => rfl) ?_ (fun node p hn hp => h.parent n node p hn hp)
  intro node hn hv
  rcases hf with ⟨other, hother, hov⟩ | hf
  · obtain rfl : node = other := Option.some.inj (hn.symm.trans hother)
    rw [hv] at hov
    exact absurd hov (by simp)
  · rw [h.children n node hn hv, hf]

theorem Sound.setParent (h : a.Sound) (n : Nat) {p : Option Nat} (hp : ∀ m ∈ p, a.CanHold m) :
    a.Leads (a.update n fun node => { node with parent := p }) :=
  h.update (fun _ _ => rfl) (fun _ _ => rfl) (fun node hn hv => h.children n node hn hv)
    (fun _ m _ hm => hp m hm)

/-! ### Making and moving nodes -/

theorem Sound.create (h : a.Sound) {kind : NodeKind} (hc : ∀ p ∈ kind.content?, a.CanHold p) :
    a.Leads (a.create kind).1 := by
  have hgrows : ∀ m, a.CanHold m → (a.create kind).1.CanHold m := by
    rintro m ⟨node, hm, hv⟩
    have hlt : m < a.size := (Array.getElem?_eq_some_iff.mp hm).1
    exact ⟨node, by simp [Arena.create, Array.getElem?_push_lt hlt, ← hm], hv⟩
  have hold : ∀ (m : Nat) (node : Node), (a.create kind).1[m]? = some node →
      a[m]? = some node ∨ node = ⟨kind, none, []⟩ := by
    intro m node hm
    rw [Arena.create, Array.getElem?_push] at hm
    split at hm
    · exact .inr (Option.some.inj hm).symm
    · exact .inl hm
  refine ⟨⟨hgrows 0 h.root, ?_, ?_, ?_⟩, hgrows⟩
  · intro m node hm hv
    rcases hold m node hm with hm | rfl
    · exact h.children m node hm hv
    · rfl
  · intro m node p hm hp
    rcases hold m node hm with hm | rfl
    · exact hgrows p (h.parent m node p hm hp)
    · simp at hp
  · intro m node p hm hp
    rcases hold m node hm with hm | rfl
    · exact hgrows p (h.content m node p hm hp)
    · exact hgrows p (hc p hp)

theorem canHold_create (a : Arena) {kind : NodeKind} (hk : kind.isVoid = false) :
    (a.create kind).1.CanHold (a.create kind).2 :=
  ⟨⟨kind, none, []⟩, by simp [Arena.create], hk⟩

theorem Sound.createElement (h : a.Sound) (tag : Tag) (attributes : List Attribute) :
    a.Leads (a.createElement tag attributes).1 := by
  rw [Arena.createElement]
  split
  · have hdoc : a.Leads (a.create .document).1 := h.create (by simp [NodeKind.content?])
    have hcontent : (a.create .document).1.CanHold (a.create .document).2 :=
      canHold_create a rfl
    refine hdoc.trans (hdoc.sound.create ?_)
    intro p hp
    obtain rfl : (a.create .document).2 = p := Option.some.inj hp
    exact hcontent
  · exact h.create (by simp [NodeKind.content?])

theorem canHold_createElement (a : Arena) {tag : Tag} (ht : tag.isVoid = false)
    (attributes : List Attribute) :
    (a.createElement tag attributes).1.CanHold (a.createElement tag attributes).2 := by
  rw [Arena.createElement]
  split
  · exact canHold_create _ ht
  · exact canHold_create _ ht

theorem Sound.detach (h : a.Sound) (n : Nat) : a.Leads (a.detach n) := by
  rw [Arena.detach]
  split
  · exact h.leads
  · next p _ =>
    have hrow := h.setChildren (n := p) (f := fun l => l.filter (· != n)) (.inr rfl)
    exact hrow.trans (hrow.sound.setParent n (by simp))

theorem Sound.append (h : a.Sound) {p : Nat} (hp : a.CanHold p) (n : Nat) :
    a.Leads (a.append p n) := by
  have hdetach := h.detach n
  have hparent := hdetach.sound.setParent n (p := some p) fun m hm =>
    Option.some.inj hm ▸ hdetach.grows p hp
  have hboth := hdetach.trans hparent
  exact hboth.trans (hboth.sound.setChildren (f := fun l => l ++ [n]) (.inl (hboth.grows p hp)))

theorem Sound.insertBefore (h : a.Sound) (sibling n : Nat) :
    a.Leads (a.insertBefore sibling n) := by
  rw [Arena.insertBefore]
  split
  · exact h.leads
  · next p hp =>
    have hhold : a.CanHold p := h.parentOf hp
    have hdetach := h.detach n
    have hparent := hdetach.sound.setParent n (p := some p) fun m hm =>
      Option.some.inj hm ▸ hdetach.grows p hhold
    have hboth := hdetach.trans hparent
    exact hboth.trans (hboth.sound.setChildren (f := putBefore n sibling)
      (.inl (hboth.grows p hhold)))

/-- A text is added to by one change of its node. -/
theorem exists_update_of_extendText? {n : Option Nat} {s : String}
    (h : a.extendText? n s = some a') :
    ∃ n content, (∀ node, a[n]? = some node → node.kind = .text content) ∧
      a' = a.update n fun node => { node with kind := .text (content ++ s) } := by
  cases n with
  | none => simp [Arena.extendText?] at h
  | some n =>
    cases hk : a.kindOf n with
    | text content =>
      simp only [Arena.extendText?, hk, Option.some.injEq] at h
      exact ⟨n, content, fun node hn => by simpa [kindOf, hn] using hk, h.symm⟩
    | _ => simp [Arena.extendText?, hk] at h

theorem Sound.extendText? (h : a.Sound) {n : Option Nat} {s : String}
    (he : a.extendText? n s = some a') : a.Leads a' := by
  obtain ⟨n, content, hkind, rfl⟩ := exists_update_of_extendText? he
  refine h.update ?_ ?_ (fun node hn hv => h.children n node hn hv) fun node p hn hp =>
    h.parent n node p hn hp
  · intro node hn
    rw [hkind node hn]
    rfl
  · intro node hn
    rw [hkind node hn]
    rfl

theorem Sound.appendText (h : a.Sound) {p : Nat} (hp : a.CanHold p) (s : String) :
    a.Leads (a.appendText p s) := by
  rw [Arena.appendText]
  split
  · next he => exact h.extendText? he
  · have hcreate : a.Leads (a.create (.text s)).1 := h.create (by simp [NodeKind.content?])
    exact hcreate.trans (hcreate.sound.append (hcreate.grows p hp) _)

theorem Sound.insertTextBefore (h : a.Sound) (sibling : Nat) (s : String) :
    a.Leads (a.insertTextBefore sibling s) := by
  rw [Arena.insertTextBefore]
  dsimp only
  split
  · next he => exact h.extendText? he
  · have hcreate : a.Leads (a.create (.text s)).1 := h.create (by simp [NodeKind.content?])
    exact hcreate.trans (hcreate.sound.insertBefore sibling _)

theorem Sound.moveChildren (h : a.Sound) (source : Nat) {target : Nat} (ht : a.CanHold target) :
    a.Leads (a.moveChildren source target) := by
  rw [Arena.moveChildren]
  generalize a.childrenOf source = row
  induction row generalizing a with
  | nil => exact h.leads
  | cons n row ih =>
    have hn := h.append ht n
    exact hn.trans (ih hn.sound (hn.grows target ht))

theorem Sound.addAttributes (h : a.Sound) (n : Nat) (more : List Attribute) :
    a.Leads (a.addAttributes n more) := by
  refine h.update ?_ ?_ (fun node hn hv => h.children n node hn hv)
    (fun node p hn hp => h.parent n node p hn hp)
  · intro node _
    cases node.kind <;> rfl
  · intro node _
    cases node.kind <;> rfl

theorem sound_empty : Arena.empty.Sound := by
  have hroot : Arena.empty.CanHold 0 := ⟨⟨.document, none, []⟩, rfl, rfl⟩
  have honly : ∀ (n : Nat) (node : Node), Arena.empty[n]? = some node →
      node = ⟨.document, none, []⟩ := by
    intro n node hn
    have hlt : n < 1 := (Array.getElem?_eq_some_iff.mp hn).1
    obtain rfl : n = 0 := by omega
    exact (Option.some.inj hn).symm
  refine ⟨hroot, ?_, ?_, ?_⟩
  · intro n node hn _
    rw [honly n node hn]
  · intro n node p hn hp
    rw [honly n node hn] at hp
    simp at hp
  · intro n node p hn hp
    rw [honly n node hn] at hp
    simp [NodeKind.content?] at hp

end Arena

/-! ### As a tree -/

/-- No void element has anything in it. -/
def Forest.VoidsEmpty : Forest → Prop
  | nil => True
  | text _ rest | comment _ rest | doctype _ rest => rest.VoidsEmpty
  | element tag _ children rest =>
    (tag.isVoid = true → children = nil) ∧ children.VoidsEmpty ∧ rest.VoidsEmpty

theorem Arena.Sound.childrenOf {a : Arena} (h : a.Sound) {n : Nat} {tag : Tag}
    {attributes : List Attribute} {content : Option Nat}
    (hk : a.kindOf n = .element tag attributes content) (hv : tag.isVoid = true) :
    a.childrenOf n = [] := by
  cases hn : a[n]? with
  | none => simp [kindOf, hn] at hk
  | some node =>
    have hkind : node.kind = .element tag attributes content := by simpa [kindOf, hn] using hk
    simpa [Arena.childrenOf, hn] using h.children n node hn (by rw [hkind]; exact hv)

theorem Arena.Sound.forestOf {a : Arena} (h : a.Sound) (depth : Nat) (row : List Nat) :
    (a.forestOf depth row).VoidsEmpty := by
  induction depth generalizing row with
  | zero => trivial
  | succ depth ih =>
    rw [Arena.forestOf]
    induction row with
    | nil => trivial
    | cons n row ihrow =>
      rw [List.foldr_cons]
      cases hk : a.kindOf n with
      | element tag attributes content =>
        refine ⟨fun hv => ?_, ih _, ihrow⟩
        rw [h.childrenOf hk hv]
        cases depth <;> rfl
      | _ => exact ihrow

theorem Arena.Sound.toForest {a : Arena} (h : a.Sound) : a.toForest.VoidsEmpty := h.forestOf _ _

end EmailTemplate.Html
