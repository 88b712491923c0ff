import EmailTemplate.Proofs.Adaptation.Placeholders
import EmailTemplate.Proofs.Template.Laced
import EmailTemplate.Template.Check
import EmailTemplate.Template.Render

/-! From a message without braces to its template and on to a message again. The template wants no
value that is not recorded, and rendering leaves no brace open in it. -/

namespace EmailTemplate

open Html Template Text

/-! ### Texts of templates -/

theorem Html.Joins.toHtml {C : List Char → Prop} (hC : Joins C) {f : Forest}
    (hf : f.Follows (.texts C)) : C f.toHtml.toList := by
  rw [Forest.toHtml, String.toList_ofList]
  exact hC.print hf false false

/-- A message without braces, after edits that texts of a kind are open to. -/
theorem of_edits {C : List Char → Prop} {words : String → Prop} (hC : Joins C)
    (hopen : (Rule.texts C).Open words) {html : String}
    (hfree : BraceFree (parse html).toHtml.toList) {f : Forest} (h : Edits words (parse html) f) :
    C f.toHtml.toList := by
  have hvoid : (parse html).Follows .voidsEmpty := (parse_voidsEmpty html).follows
  rw [Forest.toHtml, String.toList_ofList] at hfree
  have htexts : (parse html).Follows (.texts C) := by
    refine (follows_braceFree hvoid hfree).mono ?_ ?_ ?_ ?_
    · exact fun s hs => hC.free _ hs
    · exact fun s hs => hs
    · rintro tag as ⟨hname, has⟩
      exact ⟨hname, fun a ha => ⟨(has a ha).1, hC.free _ (has a ha).2⟩⟩
    · exact fun _ _ => trivial
  exact hC.toHtml (h.follows hopen htexts)

/-! ### Only tokens of some words -/

/-- A text that leaves no brace open, and has tokens of some words alone. -/
def Worded (words : String → Prop) (s : List Char) : Prop :=
  Closed s ∧ ∀ v, BraceFree v → token v <:+: s → words (String.ofList v)

section Worded

variable {words : String → Prop} (hwords : ∀ w, words w → Inner w)
include hwords

theorem Worded.flatMap {e : Char → List Char} (he : Escapes e)
    (hinner : ∀ c, isInner c = true → e c = [c]) {s : List Char} (h : Worded words s) :
    Worded words (s.flatMap e) := by
  refine ⟨he.closed h.1, fun v hv hi => ?_⟩
  obtain ⟨u, hu, rfl, hin⟩ := he.exists_token hv hi
  have hword := h.2 u hu hin
  have hself : ∀ c ∈ u, e c = [c] := fun c hc => hinner c (hwords _ hword c (by simpa using hc))
  rwa [flatMap_self hself]

theorem joins_worded : Joins (Worded words) where
  free u hu := ⟨hu.closed, fun v _ hi => absurd hi (not_token_infix_of_braceFree hu v)⟩
  append u v hu hv := by
    refine ⟨hu.1.append hv.1, fun w hw hi => ?_⟩
    rcases (token_infix_append_iff hw hu.1).mp hi with hi | hi
    · exact hu.2 w hw hi
    · exact hv.2 w hw hi
  text u hu := hu.flatMap hwords escapes_text fun _ hc => (isInner_spec hc).2.1
  value u hu := hu.flatMap hwords escapes_attribute fun _ hc => (isInner_spec hc).2.2

theorem open_worded : (Rule.texts (Worded words)).Open words := by
  refine open_texts (joins_worded hwords).free (fun w hw => ?_) ?_
  · have hfree := (hwords w hw).braceFree
    refine ⟨closed_token hfree, fun v hv hi => ?_⟩
    rwa [(token_infix_token_iff hv hfree).mp hi, String.ofList_toList]
  · intro found w s hfound _ hw hs
    have hfree := (hwords w hw).braceFree
    refine ⟨hs.1.replaceAll hfound.ne_nil hfound.1 hfree, fun v hv hi => ?_⟩
    rcases of_token_infix_replaceAll hfound.ne_nil hv hfree hi with rfl | ⟨hi, -⟩
    · rwa [String.ofList_toList]
    · exact hs.2 v hv hi

end Worded

/-! ### Recorded words -/

/-- A word of a section, or the name of a recorded placeholder for a value. -/
def Accounted (ps : List Placeholder) (w : String) : Prop :=
  Inner w ∧ (Stage.blocks.Puts w ∨ ∃ p ∈ ps, p.kind ≠ .block ∧ p.name = w)

theorem Contact.Name.not_isBlockName {w : String} (h : Name w) : isBlockName w = false := by
  have hall : ∀ contact ∈ all, isBlockName contact.placeholder = false := by
    simp only [all, List.forall_mem_cons]
    decide
  obtain ⟨contact, hcontact, rfl⟩ := h
  exact hall contact hcontact

namespace Stage

variable (o : AdaptOptions) (html : String)

theorem moves_found_blocks : Adaptation.Moves (Placeholder.Value Inner) (.start html)
    (blocks.found o html) := by
  have hvalue : ∀ (s : Stage) (p : Placeholder), p.Value s.Puts → p.Value Inner :=
    fun s p hp => ⟨hp.1, hp.2.1⟩
  have hpreheader := ((Adaptation.start html).moves_preheader o.preheaderFallback).mono
    (hvalue preheader)
  have htitle := (title.found o html).moves_title.mono (hvalue title)
  have hctas := ((ctas.found o html).moves_ctas o.ctaStrategy).mono (hvalue ctas)
  rw [← found_title] at hpreheader
  rw [← found_ctas] at htitle
  rw [← found_blocks] at hctas
  exact (hpreheader.trans htitle).trans hctas

theorem moves_runAll : Adaptation.Moves (Placeholder.Value Contact.Name) (brand.found o html)
    (runAll o all (.start html)) := by
  rw [runAll_all, found_comments]
  exact (Adaptation.moves_brand _).trans ((Adaptation.moves_comments _ _).mono fun _ hp => hp.elim)

/-- Every token that is put in is accounted for in the end. -/
theorem accounted_runAll : Edits (Accounted (runAll o all (.start html)).placeholders) (parse html)
    (runAll o all (.start html)).document := by
  have hfirst := (moves_found_blocks o html).lists
  have hsections : Adaptation.Lists Placeholder.Section (blocks.found o html) (brand.found o html) := by
    rw [found_brand]
    exact (Adaptation.moves_blocks o.detectBlocks _).lists
  have hlast := (moves_runAll o html).lists
  have hvalues : ∀ q ∈ (blocks.found o html).placeholders, q.kind ≠ .block :=
    fun q hq => ((hfirst.adds q hq).resolve_left List.not_mem_nil).1
  refine (hfirst.edits.mono ?_).trans ((hsections.edits.mono ?_).trans (hlast.edits.mono ?_))
  · rintro w ⟨p, hp, hw, q, hq, hname⟩
    rw [hp.words_eq, List.mem_singleton] at hw
    subst hw
    exact ⟨hp.2, .inr ⟨q, hlast.keeps (hsections.keeps hq), hvalues q hq, hname⟩⟩
  · rintro w ⟨p, hp, hw, -⟩
    have hputs := hp.of_mem_words p w hw
    exact ⟨hputs.1, .inl hputs⟩
  · rintro w ⟨p, hp, hw, q, hq, hname⟩
    rw [hp.words_eq, List.mem_singleton] at hw
    subst hw
    refine ⟨hp.2.puts.1, .inr ⟨q, hq, ?_, hname⟩⟩
    rcases hlast.adds q hq with hq | hq
    · rcases hsections.adds q hq with hq | hq
      · exact hvalues q hq
      · -- A block has no name that a contact has.
        have hblock := hq.2
        rw [hname, hp.2.not_isBlockName] at hblock
        cases hblock
    · exact hq.1

end Stage

/-! ### Tokens in tokens -/

theorem isInner_solid {c : Char} (h : isInner c = true) : isBrace c = false ∧ isBlank c = false := by
  refine ⟨(isInner_spec h).1, ?_⟩
  rcases Bool.or_eq_true_iff.mp h with h | h
  · by_contra hblank
    have hword := isWord_of_isBlank (by simpa using hblank)
    rw [isWord, if_pos (isAsciiAlphanumeric_lt h), h] at hword
    cases hword
  · have hmarks : "_-.#/:".toList.all (fun c => !isBlank c) = true := by decide
    simpa using List.all_eq_true.mp hmarks c (List.contains_iff_mem.mp h)

def InnerText (s : List Char) : Prop := ∀ c ∈ s, isInner c = true

def ContactText (s : List Char) : Prop := ∃ w, Contact.Name w ∧ s = w.toList

/-- A text with tokens that may have the tokens of contacts inside. -/
abbrev Nested := Laced BraceFree (Laced InnerText ContactText)

theorem InnerText.solid {s : List Char} (h : InnerText s) : Solid s := fun c hc => isInner_solid (h c hc)

theorem ContactText.innerText {s : List Char} (h : ContactText s) : InnerText s := by
  obtain ⟨w, hw, rfl⟩ := h
  exact hw.puts.1

theorem ContactText.unmarked {s : List Char} (h : ContactText s) : Unmarked s := by
  refine ⟨h.innerText.solid, ?_⟩
  obtain ⟨w, hw, rfl⟩ := h
  obtain ⟨-, c, hc, hhead⟩ := hw.puts
  obtain rfl := List.mem_singleton.mp hc
  rw [hhead]
  decide

theorem ContactText.replaceAll {found put s : List Char} (hfound : Contact.Detail found)
    (h : ContactText s) : replaceAll found put s = s := by
  obtain ⟨w, ⟨contact, hcontact, rfl⟩, rfl⟩ := h
  exact replaceAll_of_absent (hfound.not_infix_placeholder hcontact) put

theorem innerText_append (u v : List Char) (hu : InnerText u) (hv : InnerText v) :
    InnerText (u ++ v) := List.forall_mem_append.mpr ⟨hu, hv⟩

theorem Nested.flatMap {e : Char → List Char} (he : Escapes e)
    (hinner : ∀ c, isInner c = true → e c = [c]) {s : List Char} (h : Nested s) :
    Nested (s.flatMap e) := by
  have hopen : e '{' = ['{'] := he.escape_brace (by decide)
  have hclose : e '}' = ['}'] := he.escape_brace (by decide)
  refine Laced.flatMap hopen hclose (fun u hu => he.flatMap_braceFree hu) (fun v hv => ?_) h
  refine flatMap_self (hv.forall_mem hopen hclose ?_ ?_)
  · exact fun u hu c hc => hinner c (hu c hc)
  · exact fun u hu c hc => hinner c (hu.innerText c hc)

theorem joins_nested : Joins Nested where
  free _ hu := .plain hu
  append _ _ hu hv := hu.append braceFree_both hv
  text _ hu := Nested.flatMap escapes_text (fun _ hc => (isInner_spec hc).2.1) hu
  value _ hu := Nested.flatMap escapes_attribute (fun _ hc => (isInner_spec hc).2.2) hu

theorem open_nested : (Rule.texts Nested).Open Inner := by
  have hnil : InnerText [] := List.forall_mem_nil _
  refine open_texts joins_nested.free (fun w hw => ?_) ?_
  · exact .of_interior BraceFree.nil (.plain hw)
  · intro found w s hfound hname hw hs
    have hcontact : ContactText w.toList := ⟨w, hname, rfl⟩
    have hinterior : ∀ v, Laced InnerText ContactText v →
        Laced InnerText ContactText (replaceAll found (token w.toList) v) := by
      intro v hv
      refine hv.replaceAll hfound.ne_nil hfound.1 hnil innerText_append ?_ ?_
      · exact fun u hu => laced_replaceAll hfound.ne_nil hcontact hu
      · intro u hu
        rwa [hu.replaceAll hfound]
    refine hs.replaceAll hfound.ne_nil hfound.1 BraceFree.nil braceFree_both ?_ hinterior
    exact fun u hu => laced_replaceAll hfound.ne_nil (.plain hw) hu

/-! ### Templates and their messages -/

section Adapted

variable (o : AdaptOptions) {html : String} (hfree : BraceFree (parse html).toHtml.toList)
include hfree

theorem worded_adapt : Worded (Accounted (adapt o html).placeholders) (adapt o html).html.toList :=
  of_edits (joins_worded fun _ hw => hw.1) (open_worded fun _ hw => hw.1) hfree
    (Stage.accounted_runAll o html)

theorem laced_adapt : Laced BraceFree (Laced Solid Unmarked) (adapt o html).html.toList := by
  have hnested : Nested (adapt o html).html.toList :=
    of_edits joins_nested open_nested hfree
      ((Stage.accounted_runAll o html).mono fun _ hw => hw.1)
  refine hnested.mono (fun _ hu => hu) fun v hv => ?_
  exact hv.mono (fun _ hu => hu.solid) fun _ hw => hw.unmarked

theorem recorded_of_mem_extract {name : String} (h : name ∈ extract (adapt o html).html) :
    ∃ p ∈ (adapt o html).placeholders, p.kind ≠ .block ∧ p.name = name := by
  obtain ⟨n, hn, rfl⟩ := List.mem_map.mp h
  obtain ⟨w, hw, hi, htrim⟩ := exists_token_of_mem_placeholderNames hn
  obtain ⟨hinner, haccount⟩ := (worded_adapt o hfree).2 w hw hi
  have hblank : ∀ c ∈ w, isBlank c = false :=
    fun c hc => (isInner_solid (hinner c (by simpa using hc))).2
  -- The words of tokens have no blanks to trim, and no placeholder has the mark of a section.
  rw [trim_of_blankless hblank] at htrim
  subst htrim
  refine haccount.resolve_left ?_
  rintro ⟨-, c, hc, hhead⟩
  obtain ⟨-, hopen, hclose, -⟩ := mem_placeholderNames.mp hn
  rw [String.toList_ofList] at hhead
  simp only [Stage.initials, List.mem_cons, List.not_mem_nil, or_false] at hc
  rcases hc with rfl | rfl
  · exact hopen hhead
  · exact hclose hhead

end Adapted

/-- A template of a message without braces wants the values that are recorded and no others, and
rendering it leaves no brace open, unless data binds a token that no section takes away to a text
with a brace. -/
theorem extract_render_adapt (o : AdaptOptions) (html : String)
    (hfree : BraceFree (parse html).toHtml.toList) :
    (∀ name ∈ extract (adapt o html).html,
      ∃ p ∈ (adapt o html).placeholders, p.kind ≠ .block ∧ p.name = name) ∧
    ∀ data, BraceFreeValues (resolveBlocks (adapt o html).html.toList data) data →
      '{' ∉ (render (adapt o html).html data).html.toList := by
  refine ⟨fun name hname => recorded_of_mem_extract o hfree hname, fun data hdata => ?_⟩
  show '{' ∉ (String.ofList (renderHtml (adapt o html).html.toList data)).toList
  rw [String.toList_ofList]
  exact open_not_mem_renderHtml (laced_adapt o hfree) hdata

/-- A block with a mail address. -/
theorem open_not_mem_render_news :
    '{' ∉ (render (adapt ⟨["news"], .auto, false, false⟩ "<p id=news>a@x.io").html
      (.object [("blocks", .object [("news", .bool true)]),
        ("brand", .object [("support", .string "b@y.io")])])).html.toList :=
  (extract_render_adapt _ _ (by decide +kernel)).2 _ (by decide +kernel)

/-- The text that data has for a name, whose points lead into objects. -/
def textAt? (name : String) (data : Json.Value) : Option String :=
  let keys := (splitBy (· == '.') name.toList).map String.ofList
  match keys.foldl (fun found key => found.bind (·.get? key)) (some data) with
  | some (.string s) => some s
  | _ => none

/-- Data that shows every recorded block and has a text without braces for every other name. -/
def AdaptedTemplate.FilledBy (t : AdaptedTemplate) (data : Json.Value) : Prop :=
  ∀ p ∈ t.placeholders, if p.kind = .block then isVisible data p.name.toList = true
    else ∃ s ∈ textAt? p.name data, BraceFree s.toList

instance (t : AdaptedTemplate) (data : Json.Value) : Decidable (t.FilledBy data) :=
  inferInstanceAs (Decidable (∀ p ∈ t.placeholders,
    if p.kind = .block then isVisible data p.name.toList = true
    else ∃ s ∈ textAt? p.name data, BraceFree s.toList))

/-- Whether data leaves braces open in a template that it fills, where the message had none. -/
def LeavesOpen (o : AdaptOptions) (html : String) (data : Json.Value) : Prop :=
  BraceFree (parse html).toHtml.toList ∧ (adapt o html).FilledBy data ∧
    openBraces <:+: (render (adapt o html).html data).html.toList

instance (o : AdaptOptions) (html : String) (data : Json.Value) :
    Decidable (LeavesOpen o html data) := inferInstanceAs (Decidable (_ ∧ _))

/-- A closer that is left over and has a value, and a name that has another value at its own key. -/
theorem leavesOpen_title :
    LeavesOpen ⟨["title", "title"], .auto, false, false⟩ "<h1 class=title>Hi"
      (.object [("/block:title", .string (String.ofList openBraces)), ("title", .string "T")]) ∧
    LeavesOpen ⟨[], .auto, false, false⟩ "<p>88005553535"
      (.object [("brand", .object [("phone", .string "1")]),
        ("brand.phone", .string (String.ofList openBraces))]) := by
  decide +kernel

end EmailTemplate
