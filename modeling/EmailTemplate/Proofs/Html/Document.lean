import EmailTemplate.Proofs.Html.Lexer
import EmailTemplate.Proofs.Html.Rules

/-! Every parsed document has its element. Nothing but comments and a document type comes before it, the
end of the text makes it at the latest, and all of the text is read. -/

namespace EmailTemplate.Html

open Std.Do

set_option mvcgen.warning false

/-! ### Before the element -/

namespace Arena

/-- A document in which nothing is inside anything else. -/
structure Bare (a : Arena) : Prop where
  document : ∃ node, a[0]? = some node ∧ node.kind = .document
  rows : ∀ n, n ≠ 0 → a.childrenOf n = []

variable {a : Arena}

/-- A document with one more node in it. -/
def withNode (a : Arena) (kind : NodeKind) : Arena := (a.create kind).1.append 0 (a.create kind).2

theorem getElem?_withNode (ha : 0 < a.size) (kind : NodeKind) (m : Nat) : (a.withNode kind)[m]? =
    if m = 0 then a[0]?.map fun node => { node with children := node.children ++ [a.size] }
    else if m = a.size then some ⟨kind, some 0, []⟩ else a[m]? := by
  have hfresh : (a.create kind).1.detach (a.create kind).2 = (a.create kind).1 := by
    simp [detach, parentOf, create]
  rw [withNode, append, hfresh]
  simp only [getElem?_update, create, Array.getElem?_push]
  by_cases hzero : m = 0
  · subst hzero
    simp [ha.ne, ha.ne']
  · by_cases hsize : m = a.size
    · simp [hsize, ha.ne, ha.ne']
    · simp [Ne.symm hzero, Ne.symm hsize, hzero, hsize]

theorem Bare.size_pos (h : a.Bare) : 0 < a.size := by
  obtain ⟨node, hnode, -⟩ := h.document
  exact (Array.getElem?_eq_some_iff.mp hnode).1

theorem Bare.withNode (h : a.Bare) (kind : NodeKind) : (a.withNode kind).Bare := by
  obtain ⟨node, hnode, hkind⟩ := h.document
  refine ⟨⟨{ node with children := node.children ++ [a.size] }, ?_, hkind⟩, fun n hn => ?_⟩
  · rw [getElem?_withNode h.size_pos, if_pos rfl, hnode, Option.map_some]
  rw [childrenOf, getElem?_withNode h.size_pos, if_neg hn]
  split
  · rfl
  · exact h.rows n hn

/-- The first element that is put into such a document is the element of the document. -/
theorem Bare.isRoot_withNode (h : a.Bare) (attributes : List Attribute) :
    (a.withNode (.element ⟨.html, "html"⟩ attributes none)).IsRoot a.size := by
  have hbare := h.withNode (.element ⟨.html, "html"⟩ attributes none)
  obtain ⟨node, hnode, hkind⟩ := hbare.document
  have hzero : a.size ≠ 0 := h.size_pos.ne'
  refine ⟨by simp [kindOf, hnode, hkind], ?_, ?_, ?_⟩
  · simp [tagOf?, kindOf, getElem?_withNode h.size_pos, hzero]
  · obtain ⟨old, hold, -⟩ := h.document
    simp [childrenOf, getElem?_withNode h.size_pos, hold]
  · intro n hn
    by_contra hne
    rw [hbare.rows n hne] at hn
    exact absurd hn List.not_mem_nil

theorem bare_empty : Arena.empty.Bare := by
  refine ⟨⟨⟨.document, none, []⟩, rfl, rfl⟩, fun n hn => ?_⟩
  obtain ⟨n, rfl⟩ := Nat.exists_eq_succ_of_ne_zero hn
  rfl

end Arena

/-- The element of the document is there. -/
def Builder.Rooted (b : Builder) : Prop := ∃ r, b.Sound ⟨[], some r⟩

/-- No element is there yet. -/
structure Builder.Waiting (b : Builder) : Prop where
  sound : b.Sound .none
  bare : b.arena.Bare
  opened : b.openElements = []
  mode : b.mode = .initial ∨ b.mode = .beforeHtml

def Builder.Settled (b : Builder) : Prop := b.Waiting ∨ b.Rooted

theorem Builder.Rooted.roots {b : Builder} (h : b.Rooted) : b.arena.toForest.roots ≠ [] := by
  obtain ⟨r, hr⟩ := h
  exact (hr.root r rfl).toForest

theorem Builder.Waiting.same {b b' : Builder} (h : b.Waiting) (hsound : b'.Sound .none)
    (harena : b'.arena = b.arena) (hopen : b'.openElements = b.openElements)
    (hmode : b'.mode = .initial ∨ b'.mode = .beforeHtml) : b'.Waiting :=
  ⟨hsound, harena ▸ h.bare, hopen.trans h.opened, hmode⟩

theorem Builder.Settled.same {b b' : Builder} (h : b.Settled) (harena : b'.arena = b.arena)
    (hopen : b'.openElements = b.openElements) (hhead : b'.head = b.head)
    (hformatting : b'.formatting = b.formatting) (hmode : b'.mode = b.mode) : b'.Settled := by
  rcases h with h | ⟨r, h⟩
  · exact .inl (h.same (h.sound.same harena hopen hhead hformatting) harena hopen (hmode ▸ h.mode))
  · exact .inr ⟨r, h.same harena hopen hhead hformatting⟩

namespace Build

/-- What keeps the state sound, whatever is kept in mind, keeps the element. -/
theorem rooted_of_keeps {α : Type} {m : Build α} (h : ∀ kept, Keeps kept m) :
    ⦃fun b => ⌜b.Rooted⌝⦄ m ⦃⇓ _ => fun b => ⌜b.Rooted⌝⦄ := by
  rintro b ⟨r, hr⟩
  exact ⟨r, h _ b hr⟩

theorem appendComment_waiting (s : String) :
    ⦃fun b => ⌜b.Waiting⌝⦄ appendComment 0 s ⦃⇓ _ => fun b => ⌜b.Waiting⌝⦄ := by
  intro b hb
  have hsound := appendComment_keeps .none 0 s b ⟨hb.sound, hb.sound.arena.root⟩
  exact ⟨hsound, hb.bare.withNode _, hb.opened, hb.mode⟩

theorem createRoot_waiting (tag : StartTag) :
    ⦃fun b => ⌜b.Waiting⌝⦄ createRoot tag ⦃⇓ _ => fun b => ⌜b.Rooted⌝⦄ := by
  intro b hb
  have hsound := createRoot_keeps .none tag b hb.sound
  refine ⟨b.arena.size, { hsound with root := ?_ }⟩
  intro r hr
  obtain rfl : b.arena.size = r := Option.some.inj hr
  exact hb.bare.isRoot_withNode _

theorem initial_waiting (token : Token) :
    ⦃fun b => ⌜b.Waiting⌝⦄ initial token ⦃⇓ _ => fun b => ⌜b.Waiting⌝⦄ := by
  have hcomment := appendComment_waiting
  have hagain : ∀ b : Builder, b.Waiting →
      ({ b with old := true, mode := .beforeHtml } : Builder).Waiting := fun b h =>
    h.same (h.sound.same rfl rfl rfl rfl) rfl rfl (.inr rfl)
  mvcgen [initial, done, againIn, setMode, hcomment, -initial_keeps, -appendComment_keeps, -done_keeps,
    -againIn_keeps, -setMode_keeps]
  · rename_i b h _ _
    exact hagain b h
  · rename_i b h _ _
    exact hagain b h

theorem startDocument_waiting :
    ⦃fun b => ⌜b.Waiting⌝⦄ startDocument ⦃⇓ _ => fun b => ⌜b.Rooted⌝⦄ := by
  have hroot := createRoot_waiting
  have hagain := fun mode => rooted_of_keeps fun kept => againIn_keeps kept mode
  mvcgen [startDocument, hroot, hagain, -startDocument_keeps, -createRoot_keeps, -againIn_keeps]

theorem beforeHtml_waiting (token : Token) :
    ⦃fun b => ⌜b.Waiting⌝⦄ beforeHtml token ⦃⇓ _ => fun b => ⌜b.Settled⌝⦄ := by
  have hcomment := appendComment_waiting
  have hroot := createRoot_waiting
  have hstart := startDocument_waiting
  have hmode := fun mode => rooted_of_keeps fun kept => setMode_keeps kept mode
  mvcgen [beforeHtml, done, hcomment, hroot, hstart, hmode, -beforeHtml_keeps, -appendComment_keeps,
    -done_keeps, -setMode_keeps, -createRoot_keeps, -startDocument_keeps]
  all_goals first
    | exact .inr
    | exact .inl ‹_›
    | exact .inr ‹_›

/-! ### All of the rules -/

/-- Nothing is open yet, so no token is read by the rules of foreign content. -/
theorem not_isForeign {b : Builder} (h : b.Waiting) {token : Token} : ¬isForeign b token = true := by
  cases token <;> simp [isForeign, h.opened]

theorem stepForeign_never (token : Token) (Q : PostCond Next (.arg Builder .pure)) :
    ⦃fun _ => ⌜False⌝⦄ stepForeign token ⦃Q⦄ := fun _ h => h.elim

theorem step_waiting (mode : Mode) (token : Token) :
    ⦃fun b => ⌜b.Waiting ∧ b.mode = mode⌝⦄ step mode token ⦃⇓ _ => fun b => ⌜b.Settled⌝⦄ := by
  rintro b ⟨hb, rfl⟩
  rcases hb.mode with hmode | hmode
  · rw [hmode]
    exact .inl (initial_waiting token b hb)
  · rw [hmode]
    exact beforeHtml_waiting token b hb

theorem process_settled (fuel : Nat) (token : Token) :
    ⦃fun b => ⌜b.Settled⌝⦄ process fuel token ⦃⇓ _ => fun b => ⌜b.Settled⌝⦄ := by
  induction fuel with
  | zero =>
    rw [process]
    mvcgen
  | succ fuel ih =>
    have hstep := fun mode => step_waiting mode token
    have hwaiting : ⦃fun b => ⌜b.Waiting⌝⦄ process (fuel + 1) token ⦃⇓ _ => fun b => ⌜b.Settled⌝⦄ := by
      rw [process]
      mvcgen [hstep, stepForeign_never, ih, -step_keeps, -process_keeps]
      rename_i b h _ hforeign
      exact not_isForeign h hforeign
    rintro b (hb | hb)
    · exact hwaiting b hb
    · exact .inr (rooted_of_keeps (fun kept => process_keeps kept (fuel + 1) token) b hb)

theorem process_finish_beforeHtml (fuel : Nat) :
    ⦃fun b => ⌜b.Waiting ∧ b.mode = .beforeHtml⌝⦄ process (fuel + 1) .finish
    ⦃⇓ _ => fun b => ⌜b.Rooted⌝⦄ := by
  have hstep : ∀ mode, ⦃fun b => ⌜(b.Waiting ∧ b.mode = .beforeHtml) ∧ b.mode = mode⌝⦄ step mode .finish
      ⦃⇓ _ => fun b => ⌜b.Rooted⌝⦄ := by
    rintro mode b ⟨⟨hb, hmode⟩, rfl⟩
    rw [hmode]
    exact startDocument_waiting b hb
  have hagain := rooted_of_keeps fun kept => process_keeps kept fuel .finish
  rw [process]
  mvcgen [hstep, stepForeign_never, hagain, -step_keeps, -process_keeps]

theorem process_finish_initial (fuel : Nat) :
    ⦃fun b => ⌜b.Waiting ∧ b.mode = .initial⌝⦄ process (fuel + 2) .finish
    ⦃⇓ _ => fun b => ⌜b.Rooted⌝⦄ := by
  have hstep : ∀ mode, ⦃fun b => ⌜(b.Waiting ∧ b.mode = .initial) ∧ b.mode = mode⌝⦄ step mode .finish
      ⦃⇓ next => fun b => ⌜next = .again ∧ b.Waiting ∧ b.mode = .beforeHtml⌝⦄ := by
    rintro mode b ⟨⟨hb, hmode⟩, rfl⟩
    rw [hmode]
    exact ⟨rfl, initial_waiting .finish b hb, rfl⟩
  have hagain := process_finish_beforeHtml fuel
  rw [process]
  mvcgen [hstep, stepForeign_never, hagain, -step_keeps, -process_keeps]
  · rename_i h
    exact absurd h.1 (by decide)
  · rename_i h
    exact h.2

/-- The end of the text makes the element: the rules that wait for it are gone through twice at most. -/
theorem process_finish (fuel : Nat) :
    ⦃fun b => ⌜b.Settled⌝⦄ process (fuel + 2) .finish ⦃⇓ _ => fun b => ⌜b.Rooted⌝⦄ := by
  rintro b (hb | hb)
  · rcases hb.mode with hmode | hmode
    · exact process_finish_initial fuel b ⟨hb, hmode⟩
    · exact process_finish_beforeHtml (fuel + 1) b ⟨hb, hmode⟩
  · exact rooted_of_keeps (fun kept => process_keeps kept (fuel + 2) .finish) b hb

theorem readDoctypeToken_waiting (d : Doctype) :
    ⦃fun b => ⌜b.Waiting⌝⦄ readDoctypeToken d ⦃⇓ _ => fun b => ⌜b.Waiting⌝⦄ := by
  intro b hb
  have hsound := readDoctypeToken_keeps .none d b hb.sound
  rcases hb.mode with hmode | hmode
  · have hrun : readDoctypeToken d b = ((), { b with
        arena := b.arena.withNode (.doctype (d.name.getD "")), old := d.isOld, mode := .beforeHtml }) := by
      change (if b.mode = .initial then _ else _ : Build Unit) b = _
      rw [if_pos hmode]
      rfl
    change Builder.Sound .none (readDoctypeToken d b).2 at hsound
    change Builder.Waiting (readDoctypeToken d b).2
    rw [hrun] at hsound ⊢
    exact ⟨hsound, hb.bare.withNode _, hb.opened, .inr rfl⟩
  · have hrun : readDoctypeToken d b = ((), b) := by
      change (if b.mode = .initial then _ else _ : Build Unit) b = _
      rw [hmode]
      rfl
    change Builder.Waiting (readDoctypeToken d b).2
    rw [hrun]
    exact hb

theorem readDoctypeToken_settled (d : Doctype) :
    ⦃fun b => ⌜b.Settled⌝⦄ readDoctypeToken d ⦃⇓ _ => fun b => ⌜b.Settled⌝⦄ := by
  rintro b (hb | hb)
  · exact .inl (readDoctypeToken_waiting d b hb)
  · exact .inr (rooted_of_keeps (fun kept => readDoctypeToken_keeps kept d) b hb)

theorem take_settled (token : Token) :
    ⦃fun b => ⌜b.Settled⌝⦄ take token ⦃⇓ _ => fun b => ⌜b.Settled⌝⦄ := by
  have hprocess := process_settled
  have hdoctype := readDoctypeToken_settled
  have hread : ∀ b : Builder, b.Settled → ({ b with skipLineFeed := false } : Builder).Settled :=
    fun b h => h.same rfl rfl rfl rfl rfl
  mvcgen [take, hprocess, hdoctype, -process_keeps, -readDoctypeToken_keeps]
  all_goals
    apply hread
    assumption

theorem take_finish : ⦃fun b => ⌜b.Settled⌝⦄ take .finish ⦃⇓ _ => fun b => ⌜b.Rooted⌝⦄ := by
  intro b hb
  exact process_finish (4 * b.openElements.length + 4 * b.templateModes.length + 14)
    { b with skipLineFeed := false } (hb.same rfl rfl rfl rfl rfl)

end Build

/-! ### Whole documents -/

theorem start_waiting : Builder.start.Waiting := ⟨start_sound, Arena.bare_empty, rfl, .inl rfl⟩

theorem takeAll_settled {b : Builder} (h : b.Settled) (tokens : List Token) :
    (takeAll tokens b).Settled := by
  induction tokens generalizing b with
  | nil => exact h
  | cons token rest ih => exact ih (Build.take_settled token b h)

/-- Each round reads a character, or comes to a round that does: a text that is not markup is left when
nothing more of it is there. -/
theorem construct_rooted {fuel : Nat} {b : Builder} {s : List Char} (h : b.Settled)
    (hfuel : 2 * s.length + (if b.textMode = .data then 0 else 1) < fuel) :
    (construct fuel s b).Rooted := by
  induction fuel generalizing s b with
  | zero => omega
  | succ fuel ih =>
    cases s with
    | nil => exact Build.take_finish b h
    | cons c s =>
      simp only [construct]
      split
      · next hmode =>
        have hread := readData_length (List.cons_ne_nil c s)
          (!b.openElements.isEmpty && (Build.currentTag b).space != .html)
        refine ih (takeAll_settled h _) ?_
        split <;> omega
      · next hmode =>
        have hdata : ({ b with textMode := .data } : Builder).Settled := h.same rfl rfl rfl rfl rfl
        refine ih (takeAll_settled hdata _) ?_
        rw [if_neg hmode] at hfuel
        rcases readText_progress b.textMode (Build.currentTag b).name (c :: s) with hread | hread
        · split <;> omega
        · rw [hread]
          simp only [takeAll, List.foldl_nil, if_pos]
          omega

/-- A parsed document has an element. -/
theorem roots_parse (html : String) : (parse html).roots ≠ [] := by
  refine (construct_rooted (.inl start_waiting) ?_).roots
  simp [Builder.start]

end EmailTemplate.Html
