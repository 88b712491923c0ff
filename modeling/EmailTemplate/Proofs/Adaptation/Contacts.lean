import EmailTemplate.Proofs.Adaptation.Ledger
import EmailTemplate.Proofs.Html.Rewriting
import EmailTemplate.Proofs.Html.Visits
import EmailTemplate.Proofs.Text.Cutting

/-! What the contacts that are found in a body give way to. The texts that are found are replaced one
after the other, and what stands of a text in the end are the pieces between them. -/

namespace EmailTemplate

open Html Template Text

/-- A text that was found, and the name of the placeholder that takes its place. -/
structure Finding where
  text : List Char
  name : String

namespace Contact

def finding? (markup : List Char) (contact : Contact) : Option Finding :=
  (contact.pattern.find? markup).map fun found => ⟨found, contact.placeholder⟩

/-- What is found in some markup, in the order in which it is replaced. -/
def findings (markup : List Char) : List Finding := all.filterMap (finding? markup)

end Contact

namespace Finding

/-- A contact detail that is found for a placeholder of contacts. -/
structure Fit (f : Finding) : Prop where
  detail : Contact.Detail f.text
  name : Contact.Name f.name

def replace (f : Finding) (s : List Char) : List Char := replaceAll f.text (token f.name.toList) s

def replaceEach (fs : List Finding) (s : List Char) : List Char := fs.foldl (fun s f => f.replace s) s

variable {f g : Finding} {fs : List Finding} {m s : List Char}

theorem replaceEach_nil : replaceEach [] = id := rfl

theorem replaceEach_cons (f : Finding) (fs : List Finding) :
    replaceEach (f :: fs) = replaceEach fs ∘ f.replace := rfl

theorem fit_of_mem_findings {markup : List Char} : ∀ f ∈ Contact.findings markup, f.Fit := by
  intro f h
  obtain ⟨contact, hcontact, hf⟩ := List.mem_filterMap.mp h
  obtain ⟨found, hfound, rfl⟩ := Option.map_eq_some_iff.mp hf
  exact ⟨Contact.detail_of_find? hcontact hfound, contact, hcontact, rfl⟩

theorem mem_findings {contact : Contact} (hcontact : contact ∈ Contact.all) {markup found : List Char}
    (h : contact.pattern.find? markup = some found) :
    ⟨found, contact.placeholder⟩ ∈ Contact.findings markup :=
  List.mem_filterMap.mpr ⟨contact, hcontact, Option.map_eq_some_iff.mpr ⟨found, h, rfl⟩⟩

theorem not_infix_name (hm : Contact.Detail m) (hf : f.Fit) : ¬ m <:+: f.name.toList := by
  obtain ⟨contact, hcontact, hname⟩ := hf.name
  rw [hname]
  exact hm.not_infix_placeholder hcontact

theorem texts_ne_nil (hfs : ∀ f ∈ fs, f.Fit) : ∀ find ∈ fs.map (·.text), find ≠ [] := by
  intro find hfind
  obtain ⟨f, hf, rfl⟩ := List.mem_map.mp hfind
  exact (hfs f hf).detail.ne_nil

/-! ### What stands in the end -/

/-- Between tokens that are there already texts are replaced piece by piece. -/
theorem replaceEach_intercalate (hfs : ∀ f ∈ fs, f.Fit) (hg : g.Fit) (pieces : List (List Char)) :
    replaceEach fs ((token g.name.toList).intercalate pieces) =
      (token g.name.toList).intercalate (pieces.map (replaceEach fs)) := by
  induction fs generalizing pieces with
  | nil => simp [replaceEach_nil]
  | cons f fs ih =>
    obtain ⟨hf, hrest⟩ := List.forall_mem_cons.mp hfs
    have hstep := replaceAll_intercalate_token hf.detail.ne_nil hf.detail.1
      (not_infix_name hf.detail hg) (token f.name.toList) pieces
    rw [replaceEach_cons, ← List.map_map, ← ih hrest, Function.comp_apply, replace, hstep]
    rfl

/-- A contact detail stands in a text after the replacement where it stands in a piece that is left. -/
theorem infix_replaceEach_iff (hfs : ∀ f ∈ fs, f.Fit) (hm : Contact.Detail m) :
    m <:+: replaceEach fs s ↔ ∃ w ∈ cutAll (fs.map (·.text)) s, m <:+: w := by
  induction fs generalizing s with
  | nil => simp [replaceEach_nil, cutAll]
  | cons f fs ih =>
    obtain ⟨hf, hrest⟩ := List.forall_mem_cons.mp hfs
    -- the first text cuts the whole, and the others are replaced in each piece by itself
    have hcut : replaceEach (f :: fs) s =
        (token f.name.toList).intercalate ((cut f.text s).map (replaceEach fs)) := by
      rw [← replaceEach_intercalate hrest hf, ← replaceAll_eq_intercalate hf.detail.ne_nil]
      rfl
    rw [hcut, infix_intercalate_token_iff hm.ne_nil hm.1 (not_infix_name hm hf), List.map_cons, cutAll]
    constructor
    · rintro ⟨w, hw, hin⟩
      obtain ⟨piece, hpiece, rfl⟩ := List.mem_map.mp hw
      obtain ⟨w, hw, hin⟩ := (ih hrest).mp hin
      exact ⟨w, List.mem_flatMap.mpr ⟨piece, hpiece, hw⟩, hin⟩
    · rintro ⟨w, hw, hin⟩
      obtain ⟨piece, hpiece, hw⟩ := List.mem_flatMap.mp hw
      exact ⟨_, List.mem_map_of_mem hpiece, (ih hrest).mpr ⟨w, hw, hin⟩⟩

/-- No text that is replaced is left, nor has a token or another text brought it back. -/
theorem not_infix_replaceEach (hfs : ∀ f ∈ fs, f.Fit) (hf : f ∈ fs) (s : List Char) :
    ¬ f.text <:+: replaceEach fs s := by
  rw [infix_replaceEach_iff hfs (hfs f hf).detail]
  rintro ⟨w, hw, hin⟩
  exact not_infix_of_mem_cutAll (texts_ne_nil hfs) hw (List.mem_map_of_mem hf) hin

theorem replaceEach_eq_self_iff (hfs : ∀ f ∈ fs, f.Fit) :
    replaceEach fs s = s ↔ ∀ f ∈ fs, ¬ f.text <:+: s := by
  constructor
  · intro h f hf
    rw [← h]
    exact not_infix_replaceEach hfs hf s
  · intro h
    refine List.foldlRecOn (motive := fun t => t = s) fs _ rfl fun t ht f hf => ?_
    rw [replace, ht]
    exact replaceAll_of_absent (h f hf) _

section Content

variable {content : Forest} (hfs : ∀ f ∈ fs, f.Fit) (hf : f ∈ fs)
include hfs hf

theorem not_infix_textNodes {s : String} (hs : s ∈ (content.rewrite (replaceEach fs)).textNodes) :
    ¬ f.text <:+: s.toList := by
  rw [Forest.textNodes_rewrite] at hs
  obtain ⟨t, -, rfl⟩ := List.mem_map.mp hs
  rw [String.toList_ofList]
  exact not_infix_replaceEach hfs hf t.toList

theorem not_infix_values {e : Element} (he : e ∈ (content.rewrite (replaceEach fs)).elements)
    {x : Attribute} (hx : x ∈ e.attributes) : ¬ f.text <:+: x.value.toList := by
  rw [Forest.elements_rewrite] at he
  obtain ⟨e, -, rfl⟩ := List.mem_map.mp he
  obtain ⟨y, -, rfl⟩ := List.mem_map.mp hx
  rw [Attribute.rewrite, String.toList_ofList]
  exact not_infix_replaceEach hfs hf y.value.toList

end Content

/-! ### What is recorded -/

/-- Whether some occurrence gives way to the token of a name when the texts are replaced in turn. -/
def Puts (fs : List Finding) (content : Forest) (name : String) : Prop :=
  ∃ before f after, fs = before ++ f :: after ∧ f.name = name ∧
    (content.rewrite (replaceEach before)).countLiteral f.text ≠ 0

theorem puts_cons {content : Forest} {name : String} :
    Puts (f :: fs) content name ↔ (f.name = name ∧ content.countLiteral f.text ≠ 0) ∨
      Puts fs (content.rewrite f.replace) name := by
  have hfirst : content.rewrite (replaceEach []) = content := content.rewrite_id
  have hlater : ∀ before, content.rewrite (replaceEach (f :: before)) =
      (content.rewrite f.replace).rewrite (replaceEach before) := by
    intro before
    rw [Forest.rewrite_rewrite, replaceEach_cons]
  constructor
  · rintro ⟨before, g, after, heq, hname, hcount⟩
    cases before with
    | nil =>
      obtain ⟨rfl, -⟩ := List.cons.inj heq
      rw [hfirst] at hcount
      exact .inl ⟨hname, hcount⟩
    | cons x before =>
      obtain ⟨rfl, rfl⟩ := List.cons.inj heq
      rw [hlater] at hcount
      exact .inr ⟨before, g, after, rfl, hname, hcount⟩
  · rintro (⟨hname, hcount⟩ | ⟨before, g, after, rfl, hname, hcount⟩)
    · exact ⟨[], f, fs, rfl, hname, by rwa [hfirst]⟩
    · exact ⟨f :: before, g, after, rfl, hname, by rwa [hlater]⟩

end Finding

/-! ### The stage -/

namespace Adaptation

open Finding

section Body

variable {a : Adaptation} {body : Visit} (hbody : a.document.body? = some body)
include hbody

theorem runBrand_eq_foldl : a.runBrand = (Contact.findings body.element.innerHtml.toList).foldl
    (fun b f => b.replaceContact body.index f.name f.text) a := by
  rw [runBrand, hbody, Contact.findings, List.foldl_filterMap]
  refine congrArg (Contact.all.foldl · a) (funext fun b => funext fun contact => ?_)
  rw [replaceFound, Contact.finding?]
  cases contact.pattern.find? body.element.innerHtml.toList with
  | none => rfl
  | some found => rfl

theorem occurrences_eq (found : List Char) :
    a.occurrences body.index found = body.element.children.countLiteral found := by
  obtain ⟨v, hv, helement⟩ := Forest.exists_visit (Landmark.elementAt?_of_body? hbody).1
  rw [occurrences, hv, Option.elim_some, helement]

theorem body?_replaceContact {f : Finding} (hf : f.Fit) :
    ∃ body', (a.replaceContact body.index f.name f.text).document.body? = some body' ∧
      body'.index = body.index ∧ body'.element =
        { body.element with children := body.element.children.rewrite f.replace } := by
  have hsame := Forest.replaceLiteral_eq_rewrite f.text (token f.name.toList) body.element.children
  rw [replaceContact, occurrences_eq hbody]
  split
  · next hnone =>
    refine ⟨body, hbody, rfl, ?_⟩
    rw [Forest.replaceLiteral_of_countLiteral hf.detail.ne_nil hnone] at hsame
    have hcontent : body.element.children.rewrite f.replace = body.element.children := hsame.symm
    rw [hcontent]
  · rw [record_document]
    obtain ⟨body', hbody', hindex, helement⟩ := Forest.body?_updateAt hbody fun children =>
      children.replaceLiteral f.text (token f.name.toList)
    refine ⟨body', hbody', hindex, ?_⟩
    rw [helement, hsame]
    rfl

theorem names_replaceContact (name : String) (found : List Char) :
    (a.replaceContact body.index name found).names =
      if body.element.children.countLiteral found = 0 ∨ name ∈ a.names then a.names
      else a.names ++ [name] := by
  rw [replaceContact, occurrences_eq hbody]
  by_cases hcount : body.element.children.countLiteral found = 0
  · rw [if_pos hcount, if_pos (.inl hcount)]
  · rw [if_neg hcount]
    by_cases hname : name ∈ a.names
    · rw [if_pos (.inr hname), record_of_mem hname]
      rfl
    · rw [if_neg (by simp [hcount, hname]), record_of_not_mem hname, names, List.map_append]
      rfl

section Findings

variable {fs : List Finding} (hfs : ∀ f ∈ fs, f.Fit)
include hfs

theorem body?_foldl_replaceContact : ∃ body',
    (fs.foldl (fun b f => b.replaceContact body.index f.name f.text) a).document.body? = some body' ∧
      body'.index = body.index ∧ body'.element =
        { body.element with children := body.element.children.rewrite (replaceEach fs) } := by
  induction fs generalizing a body with
  | nil =>
    refine ⟨body, hbody, rfl, ?_⟩
    rw [replaceEach_nil, Forest.rewrite_id]
  | cons f fs ih =>
    obtain ⟨hf, hrest⟩ := List.forall_mem_cons.mp hfs
    obtain ⟨middle, hmiddle, hindex, helement⟩ := body?_replaceContact hbody hf
    obtain ⟨body', hbody', hindex', helement'⟩ := ih hmiddle hrest
    rw [hindex] at hbody' hindex'
    refine ⟨body', hbody', hindex', ?_⟩
    rw [helement', helement, Forest.rewrite_rewrite, replaceEach_cons]

/-- New names come after those that are recorded, each of them once. -/
theorem names_foldl_replaceContact : ∃ new,
    (fs.foldl (fun b f => b.replaceContact body.index f.name f.text) a).names = a.names ++ new ∧
      new.Nodup ∧ ∀ name, name ∈ new ↔ name ∉ a.names ∧ Puts fs body.element.children name := by
  induction fs generalizing a body with
  | nil => exact ⟨[], (List.append_nil _).symm, List.nodup_nil, by simp [Puts]⟩
  | cons f fs ih =>
    obtain ⟨hf, hrest⟩ := List.forall_mem_cons.mp hfs
    obtain ⟨middle, hmiddle, hindex, helement⟩ := body?_replaceContact hbody hf
    obtain ⟨new, hnew, hnodup, hmem⟩ := ih hmiddle hrest
    have hnames := names_replaceContact hbody f.name f.text
    rw [hindex, ← List.foldl_cons] at hnew
    rw [helement] at hmem
    rw [hnew]
    simp only [puts_cons]
    split at hnames
    -- nothing is replaced, or the name is there already
    · next hknown =>
      rw [hnames] at hmem ⊢
      refine ⟨new, rfl, hnodup, fun name => (hmem name).trans (and_congr_right fun hname => ?_)⟩
      refine (or_iff_right ?_).symm
      rintro ⟨rfl, hcount⟩
      exact hknown.elim hcount hname
    -- the name comes after those that are there
    · next hunknown =>
      obtain ⟨hcount, hname⟩ := not_or.mp hunknown
      rw [hnames] at hmem ⊢
      refine ⟨f.name :: new, List.append_assoc .., List.nodup_cons.mpr ⟨?_, hnodup⟩, fun name => ?_⟩
      · rw [hmem]
        simp
      · rw [List.mem_cons, hmem]
        by_cases hsame : f.name = name
        · subst hsame
          simp [hname, hcount]
        · simp [hsame, Ne.symm hsame]

end Findings

theorem body?_runBrand : ∃ body', a.runBrand.document.body? = some body' ∧
    body'.index = body.index ∧ body'.element = { body.element with
      children := body.element.children.rewrite
        (replaceEach (Contact.findings body.element.innerHtml.toList)) } := by
  rw [runBrand_eq_foldl hbody]
  exact body?_foldl_replaceContact hbody fit_of_mem_findings

end Body

theorem count_append_new {old new : List String} (hnodup : new.Nodup) (hnew : ∀ name ∈ new, name ∉ old)
    {name : String} (hmem : name ∈ old ++ new) (hold : old.count name ≤ 1) :
    (old ++ new).count name = 1 := by
  rw [List.count_append]
  rcases List.mem_append.mp hmem with hmem | hmem
  · have hpos := List.count_pos_iff.mpr hmem
    have hnone : new.count name = 0 := List.count_eq_zero.mpr fun h => hnew name h hmem
    omega
  · rw [List.count_eq_zero.mpr (hnew name hmem), List.count_eq_one_of_mem hnodup hmem]

/-- Of every kind of contact the text that is found in a body is gone from all texts and values in it
afterwards. A name is recorded if it was recorded before or some text gave way to its token, and only
once, though two kinds share a name. -/
theorem runBrand_complete {a : Adaptation} {body : Visit} (hbody : a.document.body? = some body) :
    (∃ body', a.runBrand.document.body? = some body' ∧ body'.index = body.index ∧
      ∀ contact ∈ Contact.all, ∀ found,
        contact.pattern.find? body.element.innerHtml.toList = some found →
          (∀ s ∈ body'.element.children.textNodes, ¬ found <:+: s.toList) ∧
          ∀ e ∈ body'.element.children.elements, ∀ x ∈ e.attributes, ¬ found <:+: x.value.toList) ∧
    (∀ name, name ∈ a.runBrand.names ↔ name ∈ a.names ∨
      Puts (Contact.findings body.element.innerHtml.toList) body.element.children name) ∧
    ∀ name ∈ a.runBrand.names, a.names.count name ≤ 1 → a.runBrand.names.count name = 1 := by
  obtain ⟨body', hbody', hindex, helement⟩ := body?_runBrand hbody
  obtain ⟨new, hnames, hnodup, hnew⟩ := names_foldl_replaceContact hbody fit_of_mem_findings
  rw [← runBrand_eq_foldl hbody] at hnames
  refine ⟨⟨body', hbody', hindex, fun contact hcontact found hfound => ?_⟩, fun name => ?_, ?_⟩
  · have hmem := mem_findings hcontact hfound
    rw [helement]
    exact ⟨fun s hs => not_infix_textNodes fit_of_mem_findings hmem hs,
      fun e he x hx => not_infix_values fit_of_mem_findings hmem he hx⟩
  · rw [hnames, List.mem_append, hnew]
    by_cases hold : name ∈ a.names
    · simp [hold]
    · simp [hold]
  · rw [hnames]
    exact fun name hmem hold => count_append_new hnodup (fun n hn => ((hnew n).mp hn).1) hmem hold

/-- Two telephone numbers, each found as a kind of its own. -/
theorem runBrand_complete_phones :
    (start "<p>+1 212 555 0199 or 8 800 555 35 35").document.body?.isSome = true ∧
      "brand.phone" ∈ (start "<p>+1 212 555 0199 or 8 800 555 35 35").runBrand.names ∧
      (start "<p>+1 212 555 0199 or 8 800 555 35 35").names.count "brand.phone" ≤ 1 ∧
      (start "<p>+1 212 555 0199 or 8 800 555 35 35").runBrand.names.count "brand.phone" = 1 := by
  have hsome : (start "<p>+1 212 555 0199 or 8 800 555 35 35").document.body?.isSome = true := by
    decide +kernel
  have hname : "brand.phone" ∈ (start "<p>+1 212 555 0199 or 8 800 555 35 35").runBrand.names := by
    decide +kernel
  have hbefore : (start "<p>+1 212 555 0199 or 8 800 555 35 35").names.count "brand.phone" ≤ 1 := by
    decide
  obtain ⟨body, hbody⟩ := Option.isSome_iff_exists.mp hsome
  exact ⟨hsome, hname, hbefore, (runBrand_complete hbody).2.2 _ hname hbefore⟩

end Adaptation

end EmailTemplate
