import EmailTemplate.Adaptation.Run
import EmailTemplate.Proofs.Adaptation.Edits
import EmailTemplate.Proofs.Adaptation.Sections
import EmailTemplate.Proofs.Landmark.Link

/-! Each stage as a row of edits. It records what it puts in, and the words of different stages begin
with different characters. -/

namespace EmailTemplate

open Html Template Text

/-- The words that stand in the tokens of a placeholder. -/
def Placeholder.words (p : Placeholder) : List String :=
  if p.kind = .block then ["#block:" ++ p.name, "/block:" ++ p.name] else [p.name]

namespace Adaptation

/-! ### What is told beside the document -/

/-- All that an adaptation tells beside the document and the placeholders in it. -/
def report (a : Adaptation) : Adaptation := { a with document := .nil, placeholders := [] }

/-- Adaptations of one report agree in all that can be read off it. -/
theorem same_of_report {γ : Type} {a b : Adaptation} (f : Adaptation → γ) (hf : ∀ c, f c.report = f c)
    (h : a.report = b.report) : f a = f b := by
  rw [← hf a, h, hf b]

theorem record_report (a : Adaptation) (p : Placeholder) : (a.record p).report = a.report := by
  rw [record]
  split
  · rfl
  · rfl

/-- What every step leaves as it is, a row of steps does. -/
theorem foldl_same {β γ : Type} (f : Adaptation → γ) {step : Adaptation → β → Adaptation}
    (hstep : ∀ a b, f (step a b) = f a) (a : Adaptation) (bs : List β) :
    f (bs.foldl step a) = f a :=
  List.foldlRecOn (motive := fun b => f b = f a) bs step rfl fun b hb x _ => (hstep b x).trans hb

theorem replaceFound_report (a : Adaptation) (index : Nat) (markup : List Char) (contact : Contact) :
    (a.replaceFound index markup contact).report = a.report := by
  rw [replaceFound]
  cases contact.pattern.find? markup with
  | none => rfl
  | some found =>
    rw [Option.elim_some, replaceContact]
    split
    · rfl
    · exact record_report _ _

theorem runBrand_report (a : Adaptation) : a.runBrand.report = a.report := by
  rw [runBrand]
  split
  · rfl
  · exact foldl_same report (fun b contact => replaceFound_report b _ _ contact) a Contact.all

theorem runComments_report (preserve : Bool) (a : Adaptation) :
    (a.runComments preserve).report = a.report := by
  rw [runComments]
  split
  · rfl
  · rfl

/-! ### Words -/

def words (a : Adaptation) : List String := a.placeholders.flatMap Placeholder.words

theorem mem_words {a : Adaptation} {w : String} :
    w ∈ a.words ↔ ∃ p ∈ a.placeholders, w ∈ p.words := List.mem_flatMap

theorem words_subset_record (a : Adaptation) (p : Placeholder) : a.words ⊆ (a.record p).words := by
  intro w hw
  obtain ⟨q, hq, hwq⟩ := mem_words.mp hw
  refine mem_words.mpr ⟨q, ?_, hwq⟩
  rw [record]
  split
  · exact hq
  · exact List.mem_append_left _ hq

theorem of_mem_words_record {a : Adaptation} {p : Placeholder} {w : String}
    (h : w ∈ (a.record p).words) : w ∈ a.words ∨ w ∈ p.words := by
  obtain ⟨q, hq, hwq⟩ := mem_words.mp h
  rw [record] at hq
  split at hq
  · exact .inl (mem_words.mpr ⟨q, hq, hwq⟩)
  · rcases List.mem_append.mp hq with hq | hq
    · exact .inl (mem_words.mpr ⟨q, hq, hwq⟩)
    · rw [List.mem_singleton.mp hq] at hwq
      exact .inr hwq

/-- The placeholders with one more, unless its name is among theirs. -/
def listed (ps : List Placeholder) (p : Placeholder) : List Placeholder :=
  if ps.any (·.name == p.name) then ps else ps ++ [p]

theorem record_placeholders (a : Adaptation) (p : Placeholder) :
    (a.record p).placeholders = listed a.placeholders p := by
  rw [record, listed]
  split
  · rfl
  · rfl

theorem subset_listed (ps : List Placeholder) (p : Placeholder) : ps ⊆ listed ps p := by
  rw [listed]
  split
  · exact List.Subset.refl ps
  · exact List.subset_append_left ps [p]

theorem of_mem_listed {ps : List Placeholder} {p q : Placeholder} (h : q ∈ listed ps p) :
    q ∈ ps ∨ q = p := by
  rw [listed] at h
  split at h
  · exact .inl h
  · exact (List.mem_append.mp h).imp_right List.mem_singleton.mp

theorem exists_listed (ps : List Placeholder) (p : Placeholder) :
    ∃ q ∈ listed ps p, q.name = p.name := by
  rw [listed]
  split
  · next hany =>
    obtain ⟨q, hq, hname⟩ := List.any_eq_true.mp hany
    exact ⟨q, hq, beq_iff_eq.mp hname⟩
  · exact ⟨p, List.mem_append_right ps (List.mem_singleton_self p), rfl⟩

/-- A step of a stage: an edit that puts in the words of some placeholders, which are recorded. -/
def Move (P : Placeholder → Prop) (a a' : Adaptation) : Prop :=
  ∃ ps : List Placeholder, (∀ p ∈ ps, P p) ∧
    Edit (fun w => ∃ p ∈ ps, w ∈ p.words) a.document a'.document ∧
    a'.placeholders = ps.foldl listed a.placeholders

abbrev Moves (P : Placeholder → Prop) := Relation.ReflTransGen (Move P)

/-- What comes of an adaptation by edits that put in and record some words alone. -/
structure Grows (words : String → Prop) (a a' : Adaptation) : Prop where
  edits : Edits words a.document a'.document
  keeps : a.words ⊆ a'.words
  adds : ∀ w ∈ a'.words, w ∈ a.words ∨ words w

/-- What comes of an adaptation if every word that was put in belongs to a recorded name. -/
structure Lists (P : Placeholder → Prop) (a a' : Adaptation) : Prop where
  edits : Edits (fun w => ∃ p, P p ∧ w ∈ p.words ∧ ∃ q ∈ a'.placeholders, q.name = p.name)
    a.document a'.document
  keeps : a.placeholders ⊆ a'.placeholders
  adds : ∀ p ∈ a'.placeholders, p ∈ a.placeholders ∨ P p

theorem Lists.trans {P : Placeholder → Prop} {a b c : Adaptation} (h : Lists P a b)
    (h' : Lists P b c) : Lists P a c where
  edits := by
    refine (h.edits.mono fun w hw => ?_).trans h'.edits
    obtain ⟨p, hp, hmem, q, hq, hname⟩ := hw
    exact ⟨p, hp, hmem, q, h'.keeps hq, hname⟩
  keeps := List.Subset.trans h.keeps h'.keeps
  adds p hp := (h'.adds p hp).elim (h.adds p) .inr

theorem foldl_listed (ps qs : List Placeholder) :
    ps ⊆ qs.foldl listed ps ∧ (∀ p ∈ qs.foldl listed ps, p ∈ ps ∨ p ∈ qs) ∧
      ∀ p ∈ qs, ∃ q ∈ qs.foldl listed ps, q.name = p.name := by
  induction qs generalizing ps with
  | nil => exact ⟨List.Subset.refl ps, fun p hp => .inl hp, fun p hp => absurd hp List.not_mem_nil⟩
  | cons first qs ih =>
    obtain ⟨hkeeps, hadds, hnames⟩ := ih (listed ps first)
    rw [List.foldl_cons]
    refine ⟨List.Subset.trans (subset_listed ps first) hkeeps, fun p hp => ?_, fun p hp => ?_⟩
    · rcases hadds p hp with hp | hp
      · rcases of_mem_listed hp with hp | rfl
        · exact .inl hp
        · exact .inr List.mem_cons_self
      · exact .inr (List.mem_cons_of_mem first hp)
    · rcases List.mem_cons.mp hp with rfl | hp
      · obtain ⟨q, hq, hname⟩ := exists_listed ps p
        exact ⟨q, hkeeps hq, hname⟩
      · exact hnames p hp

namespace Moves

variable {P : Placeholder → Prop} {a a' : Adaptation}

theorem mono {Q : Placeholder → Prop} (hPQ : ∀ p, P p → Q p) (h : Moves P a a') : Moves Q a a' := by
  refine Relation.ReflTransGen.mono ?_ _ _ h
  rintro b c ⟨ps, hps, hmove⟩
  exact ⟨ps, fun p hp => hPQ p (hps p hp), hmove⟩

theorem lists (h : Moves P a a') : Lists P a a' := by
  induction h with
  | refl => exact ⟨.refl, List.Subset.refl _, fun p hp => .inl hp⟩
  | @tail b c _ hmove ih =>
    obtain ⟨ps, hps, hedit, hlist⟩ := hmove
    obtain ⟨hkeeps, hadds, hnames⟩ := foldl_listed b.placeholders ps
    rw [← hlist] at hkeeps hadds hnames
    refine ih.trans ⟨.single (hedit.mono fun w hw => ?_), hkeeps, fun p hp => ?_⟩
    · obtain ⟨p, hp, hmem⟩ := hw
      exact ⟨p, hps p hp, hmem, hnames p hp⟩
    · exact (hadds p hp).imp_right (hps p)

theorem grows {words : String → Prop} (hwords : ∀ p, P p → ∀ w ∈ p.words, words w)
    (h : Moves P a a') : Grows words a a' := by
  obtain ⟨hedits, hkeeps, hadds⟩ := h.lists
  refine ⟨hedits.mono fun w ⟨p, hp, hmem, _⟩ => hwords p hp w hmem, fun w hw => ?_, fun w hw => ?_⟩
  · obtain ⟨p, hp, hmem⟩ := mem_words.mp hw
    exact mem_words.mpr ⟨p, hkeeps hp, hmem⟩
  · obtain ⟨p, hp, hmem⟩ := mem_words.mp hw
    rcases hadds p hp with hp | hp
    · exact .inl (mem_words.mpr ⟨p, hp, hmem⟩)
    · exact .inr (hwords p hp w hmem)

theorem foldl {β : Type} {step : Adaptation → β → Adaptation} {Q : Adaptation → Prop}
    {bs : List β} (hstep : ∀ a, Q a → ∀ b ∈ bs, Moves P a (step a b) ∧ Q (step a b)) (ha : Q a) :
    Moves P a (bs.foldl step a) := by
  induction bs generalizing a with
  | nil => exact .refl
  | cons b bs ih =>
    obtain ⟨hmoves, hholds⟩ := hstep a ha b List.mem_cons_self
    exact hmoves.trans (ih (fun a ha c hc => hstep a ha c (List.mem_cons_of_mem b hc)) hholds)

end Moves

namespace Grows

variable {words words' : String → Prop} {a b c : Adaptation}

theorem refl (a : Adaptation) : Grows words a a := ⟨.refl, List.Subset.refl _, fun _ hw => .inl hw⟩

theorem trans (h : Grows words a b) (h' : Grows words b c) : Grows words a c where
  edits := h.edits.trans h'.edits
  keeps := List.Subset.trans h.keeps h'.keeps
  adds w hw := (h'.adds w hw).elim (h.adds w) .inr

theorem mono (hsub : ∀ w, words w → words' w) (h : Grows words a b) : Grows words' a b where
  edits := h.edits.mono hsub
  keeps := h.keeps
  adds w hw := (h.adds w hw).imp_right (hsub w)

theorem foldl {β : Type} {step : Adaptation → β → Adaptation} {bs : List β}
    (hstep : ∀ a, ∀ b ∈ bs, Grows words a (step a b)) : Grows words a (bs.foldl step a) := by
  induction bs generalizing a with
  | nil => exact refl a
  | cons b bs ih =>
    exact (hstep a b List.mem_cons_self).trans
      (ih fun a c hc => hstep a c (List.mem_cons_of_mem b hc))

end Grows

end Adaptation

/-! ### What the stages find -/

namespace Landmark

theorem elementAt?_of_body? {doc : Forest} {body : Visit} (h : doc.body? = some body) :
    doc.elementAt? body.index = some body.element ∧ body.element.isTag "body" = true := by
  refine ⟨Forest.elementAt?_of_mem_visits (List.mem_of_find?_eq_some h), ?_⟩
  exact List.find?_some (p := fun v : Visit => v.element.isTag "body") h

theorem children_ne_nil {e : Element} (h : e.trimmedText ≠ []) : e.children ≠ .nil := by
  intro hnil
  refine h ?_
  rw [Element.trimmedText, Element.textContent, hnil]
  rfl

theorem elementAt?_of_preheader? {doc : Forest} {v : Visit} (h : preheader? doc = some v) :
    doc.elementAt? v.index = some v.element ∧ v.element.children ≠ .nil := by
  obtain ⟨body, hbody, hfind⟩ := Option.bind_eq_some_iff.mp h
  have hmem := List.mem_of_mem_take (List.mem_of_find?_eq_some hfind)
  obtain ⟨j, hindex, hinner⟩ := Forest.elementAt?_of_mem_rootVisitsFrom hmem
  refine ⟨hindex ▸ Forest.elementAt?_inside (elementAt?_of_body? hbody).1 hinner, ?_⟩
  have hpreheader := List.find?_some hfind
  simp only [isPreheader, Bool.and_eq_true, decide_eq_true_eq] at hpreheader
  refine children_ne_nil fun hnil => ?_
  rw [hnil] at hpreheader
  exact absurd hpreheader.1.1 (by decide)

theorem elementAt?_of_title? {doc : Forest} {v : Visit} (h : title? doc = some v) :
    doc.elementAt? v.index = some v.element ∧ v.element.children ≠ .nil := by
  obtain ⟨candidate, -, hfind⟩ := List.exists_of_findSome?_eq_some h
  refine ⟨Forest.elementAt?_of_mem_visits (List.mem_of_find?_eq_some hfind), ?_⟩
  have htitle := List.find?_some hfind
  simp only [Bool.and_eq_true, Bool.not_eq_true', List.isEmpty_eq_false_iff] at htitle
  exact children_ne_nil htitle.2

theorem mem_visits_of_block? {visits : List Visit} {name : String} {b : Block}
    (h : block? visits name = some b) : b.visit ∈ visits := by
  obtain ⟨pattern, -, hp⟩ := List.exists_of_findSome?_eq_some h
  obtain ⟨v, hv, rfl⟩ := Option.map_eq_some_iff.mp hp
  exact List.mem_of_find?_eq_some hv

theorem of_mem_blocks {doc : Forest} {names : List String} {b : Block} (h : b ∈ blocks doc names) :
    b.name ∈ names ∧ b.visit.index < doc.count := by
  obtain ⟨name, hname, hb⟩ := List.mem_filterMap.mp h
  rw [block?_name hb]
  exact ⟨hname, Forest.elementAt?_lt (Forest.elementAt?_of_mem_visits (mem_visits_of_block? hb))⟩

end Landmark

/-! ### Words of the stages -/

/-- The characters that the words of a stage begin with. -/
def Stage.initials : Stage → List Char
  | preheader => ['p']
  | title => ['t']
  | ctas => ['c']
  | blocks => ['#', '/']
  | brand => ['b']
  | comments => []

/-- Whether a stage may put in a word. -/
def Stage.Puts (s : Stage) (w : String) : Prop :=
  Inner w ∧ ∃ c ∈ s.initials, w.toList.head? = some c

instance (s : Stage) (w : String) : Decidable (s.Puts w) :=
  have : Decidable (∃ c ∈ s.initials, w.toList.head? = some c) := List.decidableBEx _ s.initials
  inferInstanceAs (Decidable (_ ∧ _))

theorem Stage.Puts.append {s : Stage} {w x : String} (hw : s.Puts w) (hx : Inner x) :
    s.Puts (w ++ x) := by
  obtain ⟨hinner, c, hc, hhead⟩ := hw
  refine ⟨hinner.append hx, c, hc, ?_⟩
  rw [String.toList_append, List.head?_append, hhead]
  rfl

theorem Stage.puts_block {name : String} (h : isBlockName name = true) :
    Stage.blocks.Puts ("#block:" ++ name) ∧ Stage.blocks.Puts ("/block:" ++ name) := by
  have hname : Inner name := by
    intro c hc
    simp only [isBlockName, Bool.and_eq_true, List.all_eq_true, Bool.or_eq_true] at h
    rcases h.2 c hc with (hx | hx) | hx
    · simp [isInner, hx]
    · obtain rfl := beq_iff_eq.mp hx
      decide
    · obtain rfl := beq_iff_eq.mp hx
      decide
  exact ⟨Puts.append (by decide) hname, Puts.append (by decide) hname⟩

theorem Contact.Name.puts {w : String} (h : Name w) : Stage.brand.Puts w := by
  have hall : ∀ contact ∈ all, Stage.brand.Puts contact.placeholder := by
    simp only [all, List.forall_mem_cons]
    decide
  obtain ⟨contact, hcontact, rfl⟩ := h
  exact hall contact hcontact

theorem inner_toString (n : Nat) : Inner (toString n) := by
  intro c hc
  have hdigit : c.isDigit = true := by
    have hdigits : c ∈ Nat.toDigits 10 n := by simpa [toString, Nat.repr] using hc
    exact Nat.isDigit_of_mem_toDigits (by decide) (by decide) hdigits
  simp only [Char.isDigit, Bool.and_eq_true, decide_eq_true_eq] at hdigit
  have hinner : isAsciiDigit c = true := by
    simp only [isAsciiDigit, Bool.and_eq_true, decide_eq_true_eq, Char.le_def]
    exact hdigit
  simp [isInner, isAsciiAlphanumeric, hinner]

/-! ### Selected calls to action -/

theorem CtaStrategy.of_mem_select {s : CtaStrategy} {ctas : List Cta} {c : Cta}
    (h : c ∈ s.select ctas) :
    ∃ d ∈ ctas, c = d ∨ c = d.atPosition "top" ∨ c = d.atPosition "bottom" := by
  cases s with
  | all => exact ⟨c, h, .inl rfl⟩
  | auto => exact ⟨c, List.mem_of_mem_take h, .inl rfl⟩
  | topBottom =>
    match ctas with
    | [] => exact absurd h List.not_mem_nil
    | [only] => exact ⟨c, h, .inl rfl⟩
    | first :: second :: rest =>
      simp only [select, List.mem_cons, List.not_mem_nil, or_false] at h
      rcases h with rfl | rfl
      · exact ⟨first, List.mem_cons_self, .inr (.inl rfl)⟩
      · exact ⟨_, List.mem_cons_of_mem first (List.getLast_mem _), .inr (.inr rfl)⟩

/-- What tells calls to action apart tells the selected ones apart, if it still does so when the first
and the last are renamed. -/
theorem CtaStrategy.nodup_map_select (s : CtaStrategy) {β : Type} {f : Cta → β} {ctas : List Cta}
    (hends : ∀ c d, f c ≠ f d → f (c.atPosition "top") ≠ f (d.atPosition "bottom"))
    (h : (ctas.map f).Nodup) : ((s.select ctas).map f).Nodup := by
  cases s with
  | all => exact h
  | auto => exact h.sublist ((List.take_sublist 3 _).map _)
  | topBottom =>
    match ctas with
    | [] => exact List.nodup_nil
    | [only] => exact List.nodup_singleton _
    | first :: second :: rest =>
      rw [List.map_cons, List.nodup_cons] at h
      have hlast := List.getLast_mem (List.cons_ne_nil second rest)
      have hne : f first ≠ f ((second :: rest).getLast (by simp)) := fun heq =>
        h.1 (heq ▸ List.mem_map_of_mem hlast)
      simpa [select] using hends _ _ hne

theorem Landmark.of_mem_ctas {doc : Forest} {c : Cta} (h : c ∈ ctas doc) :
    c.Tokenless ∧ ∃ (i : Nat) (candidate : Candidate), c = numbered i candidate := by
  obtain ⟨i, hi, rfl⟩ := List.mem_mapIdx.mp h
  refine ⟨?_, i, _, rfl⟩
  obtain ⟨v, -, hv⟩ := List.mem_filterMap.mp ((firstBy_sublist _ _).subset (List.getElem_mem hi))
  exact (candidate?_eq_some_iff.mp hv).1.tokenless

/-- The names of a selected call to action. -/
structure Cta.Named (c : Cta) (stem : String) : Prop where
  text : c.textPlaceholder = "cta_" ++ stem ++ "_text"
  url : c.urlPlaceholder = "cta_" ++ stem ++ "_url"
  inner : Inner stem

theorem CtaStrategy.named_of_mem_select {s : CtaStrategy} {doc : Forest} {c : Cta}
    (h : c ∈ s.select (Landmark.ctas doc)) : c.Tokenless ∧ ∃ stem, c.Named stem := by
  obtain ⟨d, hd, hc⟩ := of_mem_select h
  obtain ⟨hd, i, candidate, rfl⟩ := Landmark.of_mem_ctas hd
  rcases hc with rfl | rfl | rfl
  · exact ⟨hd, toString (i + 1), rfl, rfl, inner_toString (i + 1)⟩
  · exact ⟨hd, "top", rfl, rfl, by decide⟩
  · exact ⟨hd, "bottom", rfl, rfl, by decide⟩

theorem Cta.Named.puts {c : Cta} {stem : String} (h : c.Named stem) :
    Stage.ctas.Puts c.textPlaceholder ∧ Stage.ctas.Puts c.urlPlaceholder := by
  rw [h.text, h.url]
  have hstem : Stage.ctas.Puts ("cta_" ++ stem) := Stage.Puts.append (by decide) h.inner
  exact ⟨hstem.append (by decide), hstem.append (by decide)⟩

theorem Cta.Named.text_ne_url {c d : Cta} {stem stem' : String} (hc : c.Named stem)
    (hd : d.Named stem') : c.textPlaceholder ≠ d.urlPlaceholder := by
  rw [hc.text, hd.url]
  intro he
  have hlast := congrArg (fun w : String => w.toList.reverse.head?) he
  simp [String.toList_append] at hlast

/-- No two selected calls to action have the same names. -/
theorem CtaStrategy.nodup_select (s : CtaStrategy) (doc : Forest) :
    ((s.select (Landmark.ctas doc)).map (·.textPlaceholder)).Nodup := by
  refine s.nodup_map_select (by simp [Cta.atPosition]) ?_
  rw [List.Nodup, List.pairwise_iff_getElem]
  intro i j hi hj hij he
  simp only [Landmark.ctas, List.getElem_map, List.getElem_mapIdx, Landmark.numbered,
    String.append_right_inj, String.append_left_inj] at he
  have hdigits : Nat.toDigits 10 (i + 1) = Nat.toDigits 10 (j + 1) := by
    simpa [toString] using congrArg String.toList he
  have hnumber := congrArg (fun digits => Nat.ofDigitChars 10 digits 0) hdigits
  simp only [Nat.ofDigitChars_ten_toDigits] at hnumber
  omega

/-! ### The stages -/

/-- A placeholder for a value of some name. -/
def Placeholder.Value (words : String → Prop) (p : Placeholder) : Prop :=
  p.kind ≠ .block ∧ words p.name

/-- A placeholder for a block with a proper name. -/
def Placeholder.Section (p : Placeholder) : Prop := p.kind = .block ∧ isBlockName p.name = true

theorem Placeholder.Value.words_eq {words : String → Prop} {p : Placeholder} (h : p.Value words) :
    p.words = [p.name] := if_neg h.1

theorem Placeholder.Value.of_mem_words {words : String → Prop} (p : Placeholder) (h : p.Value words) :
    ∀ w ∈ p.words, words w := by
  intro w hw
  rw [h.words_eq, List.mem_singleton] at hw
  exact hw ▸ h.2

theorem Placeholder.Section.of_mem_words (p : Placeholder) (h : p.Section) :
    ∀ w ∈ p.words, Stage.blocks.Puts w := by
  intro w hw
  obtain ⟨hopener, hcloser⟩ := Stage.puts_block h.2
  rw [Placeholder.words, if_pos h.1] at hw
  simp only [List.mem_cons, List.not_mem_nil, or_false] at hw
  rcases hw with rfl | rfl
  · exact hopener
  · exact hcloser

namespace Adaptation

/-- An edit for one value, whose placeholder is recorded. -/
theorem moves_value {words : String → Prop} {a a' : Adaptation} {p : Placeholder} (hp : p.Value words)
    (hedit : Edit (· = p.name) a.document a'.document)
    (hlist : a'.placeholders = listed a.placeholders p) : Moves (Placeholder.Value words) a a' := by
  refine .single ⟨[p], List.forall_mem_singleton.mpr hp, hedit.mono fun w hw => ?_, hlist⟩
  exact ⟨p, List.mem_singleton_self p, by simp [hp.words_eq, hw]⟩

theorem moves_putToken {words : String → Prop} {a a' : Adaptation} {name : String} {v : Visit}
    (h : a.document.elementAt? v.index = some v.element ∧ v.element.children ≠ .nil)
    (hname : words name) (hdocument : a'.document = (a.putToken name v).document)
    (hplaceholders : a'.placeholders = (a.putToken name v).placeholders) :
    Moves (Placeholder.Value words) a a' := by
  have hvalue : Placeholder.Value words ⟨name, .text, v.element.label, some v.element.label⟩ :=
    ⟨by simp, hname⟩
  refine moves_value hvalue ?_ ?_
  · rw [hdocument, putToken, record_document]
    exact .content h.1 h.2 rfl
  · rw [hplaceholders, putToken, record_placeholders]

theorem moves_addHiddenLine {words : String → Prop} {a : Adaptation} {body : Visit}
    (h : a.document.elementAt? body.index = some body.element ∧ body.element.isTag "body" = true)
    (hname : words "preheader") : Moves (Placeholder.Value words) a (a.addHiddenLine body) := by
  have hvalue : Placeholder.Value words
      ⟨"preheader", .text, "body > div:first-child", some "div"⟩ := ⟨by simp, hname⟩
  refine moves_value hvalue ?_ ?_
  · rw [addHiddenLine, record_document]
    exact .line h.1 h.2 rfl
  · rw [addHiddenLine, record_placeholders]

theorem moves_preheader (fallback : Bool) (a : Adaptation) :
    Moves (Placeholder.Value Stage.preheader.Puts) a (a.runPreheader fallback) := by
  have hputs : Stage.preheader.Puts "preheader" := by decide
  rw [runPreheader]
  split
  · next v hv =>
    exact moves_putToken (Landmark.elementAt?_of_preheader? hv) hputs rfl rfl
  · cases fallback with
    | false => exact .refl
    | true =>
      cases hbody : a.document.body? with
      | none => exact .refl
      | some body => exact moves_addHiddenLine (Landmark.elementAt?_of_body? hbody) hputs

theorem moves_title (a : Adaptation) : Moves (Placeholder.Value Stage.title.Puts) a a.runTitle := by
  rw [runTitle]
  split
  · next v hv =>
    have hputs : Stage.title.Puts "title" := by decide
    exact moves_putToken (Landmark.elementAt?_of_title? hv) hputs rfl rfl
  · exact .refl

theorem moves_addCta {c : Cta} {stem : String} (h : c.Named stem) (a : Adaptation) :
    Moves (Placeholder.Value Stage.ctas.Puts) a (a.addCta c) := by
  obtain ⟨htext, hurl⟩ := h.puts
  refine .single ⟨[⟨c.textPlaceholder, .text, "a", some "a"⟩, ⟨c.urlPlaceholder, .url, "a", some "a"⟩],
    ?_, ?_, ?_⟩
  · simp [Placeholder.Value, htext, hurl]
  · rw [addCta, record_document, record_document]
    exact .link (by simp [Placeholder.words]) (by simp [Placeholder.words])
  · rw [addCta, record_placeholders, record_placeholders]
    rfl

theorem moves_ctas (strategy : CtaStrategy) (a : Adaptation) :
    Moves (Placeholder.Value Stage.ctas.Puts) a (a.runCtas strategy) := by
  refine Moves.foldl (Q := fun _ => True) (fun b _ c hc => ⟨?_, trivial⟩) trivial
  obtain ⟨-, stem, hnamed⟩ := CtaStrategy.named_of_mem_select hc
  exact moves_addCta hnamed b

theorem count_addBlock (a : Adaptation) (b : Landmark.Block) :
    (a.addBlock b).document.count = a.document.count := by
  rw [addBlock, record_document]
  simp only [Forest.wrap_eq_editAt]
  refine Forest.count_editAt (fun e rest => ?_) _ _
  simp only [Forest.count, Element.followedBy]

theorem moves_addBlock {b : Landmark.Block} (hname : isBlockName b.name = true) {a : Adaptation}
    (hindex : b.visit.index < a.document.count) : Moves Placeholder.Section a (a.addBlock b) := by
  obtain ⟨e, he⟩ := Forest.exists_elementAt? hindex
  refine .single ⟨[⟨b.name, .block, b.pattern.selector b.name, some b.visit.element.label⟩], ?_, ?_, ?_⟩
  · simp [Placeholder.Section, hname]
  · rw [addBlock, record_document]
    exact .block he (by simp [Placeholder.words]) (by simp [Placeholder.words])
  · rw [addBlock, record_placeholders]
    rfl

theorem moves_blocks (names : List String) (a : Adaptation) :
    Moves Placeholder.Section a (a.runBlocks names) := by
  refine Moves.foldl (Q := fun b => b.document.count = a.document.count) ?_ rfl
  intro b hcount block hblock
  obtain ⟨hname, hindex⟩ := Landmark.of_mem_blocks hblock
  refine ⟨moves_addBlock (List.mem_filter.mp hname).2 (by omega), ?_⟩
  rw [count_addBlock, hcount]

theorem elementAt?_of_occurrences {a : Adaptation} {index : Nat} {found : List Char}
    (h : a.occurrences index found ≠ 0) : ∃ e, a.document.elementAt? index = some e ∧
      a.occurrences index found = e.children.countLiteral found := by
  cases hv : a.document.visits[index]? with
  | none => exact absurd (by rw [occurrences, hv]; rfl) h
  | some v =>
    refine ⟨v.element, (Forest.elementAt?_of_visits hv).2, ?_⟩
    rw [occurrences, hv]
    rfl

theorem moves_replaceFound {contact : Contact} (hcontact : contact ∈ Contact.all) (index : Nat)
    (markup : List Char) (a : Adaptation) :
    Moves (Placeholder.Value Contact.Name) a (a.replaceFound index markup contact) := by
  have hname : Contact.Name contact.placeholder := ⟨contact, hcontact, rfl⟩
  rw [replaceFound]
  cases hfound : contact.pattern.find? markup with
  | none => exact .refl
  | some found =>
    rw [Option.elim_some, replaceContact]
    split
    · exact .refl
    · next hcount =>
      obtain ⟨e, he⟩ := elementAt?_of_occurrences hcount
      have hdetail := Contact.detail_of_find? hcontact hfound
      have hvalue : Placeholder.Value Contact.Name ⟨contact.placeholder, .text, "body", none⟩ :=
        ⟨by simp, hname⟩
      refine moves_value hvalue ?_ ?_
      · rw [record_document]
        exact .contact he.1 hdetail hname rfl
      · rw [record_placeholders]

theorem moves_brand (a : Adaptation) : Moves (Placeholder.Value Contact.Name) a a.runBrand := by
  rw [runBrand]
  split
  · exact .refl
  · refine Moves.foldl (Q := fun _ => True) (fun b _ contact hcontact => ⟨?_, trivial⟩) trivial
    exact moves_replaceFound hcontact _ _ b

theorem moves_comments (preserve : Bool) (a : Adaptation) :
    Moves (fun _ => False) a (a.runComments preserve) := by
  rw [runComments]
  split
  · exact .refl
  · exact .single ⟨[], by simp, .comments, rfl⟩

theorem grows_brand (a : Adaptation) : Grows Contact.Name a a.runBrand :=
  a.moves_brand.grows Placeholder.Value.of_mem_words

end Adaptation

namespace Stage

theorem grows (o : AdaptOptions) (s : Stage) (a : Adaptation) : a.Grows s.Puts (s.run o a) := by
  cases s with
  | preheader => exact (a.moves_preheader o.preheaderFallback).grows Placeholder.Value.of_mem_words
  | title => exact a.moves_title.grows Placeholder.Value.of_mem_words
  | ctas => exact (a.moves_ctas o.ctaStrategy).grows Placeholder.Value.of_mem_words
  | blocks => exact (a.moves_blocks o.detectBlocks).grows Placeholder.Section.of_mem_words
  | brand => exact a.grows_brand.mono fun w hw => hw.puts
  | comments => exact (a.moves_comments o.preserveComments).grows fun _ hp => hp.elim

theorem grows_runAll (o : AdaptOptions) (stages : List Stage) (a : Adaptation) :
    a.Grows (fun w => ∃ s ∈ stages, s.Puts w) (runAll o stages a) :=
  Adaptation.Grows.foldl fun b s hs => (s.grows o b).mono fun _ hw => ⟨s, hs, hw⟩

end Stage

end EmailTemplate
