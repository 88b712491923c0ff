import EmailTemplate.Proofs.Adaptation.Recorded
import EmailTemplate.Proofs.Adaptation.Stages

/-! What an adaptation promises its reader is on record. In whatever order the stages run, and however
often each of them does, they list placeholders after those that are there. -/

namespace EmailTemplate

open Html

namespace Adaptation

def names (a : Adaptation) : List String := a.placeholders.map (·.name)

/-- The names of which an adaptation tells outside the list of its placeholders. -/
inductive Promises (a : Adaptation) : String → Prop
  | preheader : a.supportsPreheader = true → Promises a "preheader"
  | title : a.hasTitle = true → Promises a "title"
  | text {c : Cta} : c ∈ a.ctas → Promises a c.textPlaceholder
  | url {c : Cta} : c ∈ a.ctas → Promises a c.urlPlaceholder
  | block {name : String} : name ∈ a.blocks → Promises a name

/-- An adaptation of a message that lists no name twice, and every name that it promises. -/
structure Backed (html : String) (a : Adaptation) : Prop where
  source : a.source = html
  nodup : a.names.Nodup
  listed : ∀ name, a.Promises name → name ∈ a.names

/-- What a step may do: it lists placeholders after the others, and of new names it promises only
those that are listed by then. -/
structure Advances (a b : Adaptation) : Prop where
  source : b.source = a.source
  keeps : a.placeholders <+: b.placeholders
  promises : ∀ name, b.Promises name → a.Promises name ∨ name ∈ b.names

variable {a b c : Adaptation} {name : String}

/-- What an adaptation promises is in its report. -/
theorem Promises.congr (h : a.Promises name) (hreport : a.report = b.report) : b.Promises name := by
  have hpreheader := same_of_report supportsPreheader (fun _ => rfl) hreport
  have htitle := same_of_report hasTitle (fun _ => rfl) hreport
  have hctas := same_of_report ctas (fun _ => rfl) hreport
  have hblocks := same_of_report blocks (fun _ => rfl) hreport
  cases h with
  | preheader h => exact .preheader (hpreheader ▸ h)
  | title h => exact .title (htitle ▸ h)
  | text h => exact .text (hctas ▸ h)
  | url h => exact .url (hctas ▸ h)
  | block h => exact .block (hblocks ▸ h)

namespace Advances

theorem names_subset (h : Advances a b) : a.names ⊆ b.names :=
  List.map_subset _ h.keeps.subset

theorem refl (a : Adaptation) : Advances a a := ⟨rfl, List.prefix_refl _, fun _ h => .inl h⟩

theorem document (a : Adaptation) (document : Forest) : Advances a { a with document } where
  source := rfl
  keeps := List.prefix_refl _
  promises _ hname := .inl (hname.congr rfl)

theorem trans (h : Advances a b) (h' : Advances b c) : Advances a c where
  source := h'.source.trans h.source
  keeps := h.keeps.trans h'.keeps
  promises name hname := by
    rcases h'.promises name hname with hb | hlisted
    · rcases h.promises name hb with ha | hlisted
      · exact .inl ha
      · exact .inr (h'.names_subset hlisted)
    · exact .inr hlisted

theorem foldl {β : Type} {step : Adaptation → β → Adaptation} (hstep : ∀ a b, Advances a (step a b))
    (a : Adaptation) (bs : List β) : Advances a (bs.foldl step a) :=
  List.foldlRecOn bs step (refl a) fun b hb x _ => hb.trans (hstep b x)

theorem supportsPreheader (h : Advances a b) (hname : "preheader" ∈ b.names) :
    Advances a { b with supportsPreheader := true } where
  source := h.source
  keeps := h.keeps
  promises name hname := by
    cases hname with
    | preheader => exact .inr ‹_›
    | title h' => exact h.promises _ (.title h')
    | text h' => exact h.promises _ (.text h')
    | url h' => exact h.promises _ (.url h')
    | block h' => exact h.promises _ (.block h')

theorem hasTitle (h : Advances a b) (hname : "title" ∈ b.names) :
    Advances a { b with hasTitle := true } where
  source := h.source
  keeps := h.keeps
  promises name hname := by
    cases hname with
    | preheader h' => exact h.promises _ (.preheader h')
    | title => exact .inr ‹_›
    | text h' => exact h.promises _ (.text h')
    | url h' => exact h.promises _ (.url h')
    | block h' => exact h.promises _ (.block h')

end Advances

/-! ### Placeholders -/

theorem record_source (a : Adaptation) (p : Placeholder) : (a.record p).source = a.source :=
  same_of_report source (fun _ => rfl) (a.record_report p)

theorem prefix_record (a : Adaptation) (p : Placeholder) :
    a.placeholders <+: (a.record p).placeholders := by
  rw [record_placeholders, listed]
  split
  · exact List.prefix_refl _
  · exact List.prefix_append _ _

theorem name_mem_names_record (a : Adaptation) (p : Placeholder) : p.name ∈ (a.record p).names := by
  obtain ⟨q, hq, hname⟩ := exists_listed a.placeholders p
  rw [names, record_placeholders]
  exact List.mem_map.mpr ⟨q, hq, hname⟩

theorem promises_of_record {p : Placeholder} (h : (a.record p).Promises name) : a.Promises name :=
  h.congr (a.record_report p)

theorem advances_record (a : Adaptation) (p : Placeholder) : Advances a (a.record p) where
  source := record_source a p
  keeps := prefix_record a p
  promises _ hname := .inl (promises_of_record hname)

/-- To list a placeholder makes up for a promise of its name. -/
theorem advances_of_record {p : Placeholder} (hsource : b.source = a.source)
    (hplaceholders : b.placeholders = a.placeholders)
    (hpromises : ∀ name, b.Promises name → a.Promises name ∨ name = p.name) :
    Advances a (b.record p) where
  source := (record_source b p).trans hsource
  keeps := hplaceholders ▸ prefix_record b p
  promises name hname := by
    rcases hpromises name (promises_of_record hname) with hold | rfl
    · exact .inl hold
    · exact .inr (name_mem_names_record b p)

/-! ### Stages -/

theorem advances_putToken (a : Adaptation) (name : String) (v : Visit) :
    Advances a (a.putToken name v) :=
  (Advances.document a _).trans (advances_record _ _)

theorem name_mem_names_putToken (a : Adaptation) (name : String) (v : Visit) :
    name ∈ (a.putToken name v).names := name_mem_names_record _ _

theorem advances_addHiddenLine (a : Adaptation) (body : Visit) :
    Advances a (a.addHiddenLine body) := by
  refine advances_of_record rfl rfl fun name hname => ?_
  cases hname with
  | preheader => exact .inr rfl
  | title h => exact .inl (.title h)
  | text h => exact .inl (.text h)
  | url h => exact .inl (.url h)
  | block h => exact .inl (.block h)

theorem advances_preheader (fallback : Bool) (a : Adaptation) :
    Advances a (a.runPreheader fallback) := by
  rw [runPreheader]
  split
  · next v _ =>
    exact (a.advances_putToken "preheader" v).supportsPreheader (name_mem_names_putToken _ _ v)
  · cases fallback with
    | false => exact .refl a
    | true =>
      cases a.document.body? with
      | none => exact .refl a
      | some body => exact a.advances_addHiddenLine body

theorem advances_title (a : Adaptation) : Advances a a.runTitle := by
  rw [runTitle]
  split
  · next v _ => exact (a.advances_putToken "title" v).hasTitle (name_mem_names_putToken _ _ v)
  · exact .refl a

/-- A call to action is promised before its two names are listed, one after the other. -/
theorem advances_addCta (a : Adaptation) (c : Cta) : Advances a (a.addCta c) := by
  let told : Adaptation := { a with document := a.document.replaceCta c, ctas := a.ctas ++ [c] }
  let text : Placeholder := ⟨c.textPlaceholder, .text, "a", some "a"⟩
  let url : Placeholder := ⟨c.urlPlaceholder, .url, "a", some "a"⟩
  have hrest : Advances told (a.addCta c) :=
    (advances_record told text).trans (advances_record (told.record text) url)
  have htext : c.textPlaceholder ∈ (a.addCta c).names :=
    (advances_record (told.record text) url).names_subset (name_mem_names_record told text)
  have hurl : c.urlPlaceholder ∈ (a.addCta c).names := name_mem_names_record (told.record text) url
  refine ⟨hrest.source, hrest.keeps, fun name hname => ?_⟩
  rcases hrest.promises name hname with htold | hlisted
  · cases htold with
    | preheader h => exact .inl (.preheader h)
    | title h => exact .inl (.title h)
    | text h =>
      rcases List.mem_append.mp h with hold | hnew
      · exact .inl (.text hold)
      · rw [List.mem_singleton.mp hnew]
        exact .inr htext
    | url h =>
      rcases List.mem_append.mp h with hold | hnew
      · exact .inl (.url hold)
      · rw [List.mem_singleton.mp hnew]
        exact .inr hurl
    | block h => exact .inl (.block h)
  · exact .inr hlisted

theorem advances_addBlock (a : Adaptation) (block : Landmark.Block) :
    Advances a (a.addBlock block) := by
  refine advances_of_record rfl rfl fun name hname => ?_
  cases hname with
  | preheader h => exact .inl (.preheader h)
  | title h => exact .inl (.title h)
  | text h => exact .inl (.text h)
  | url h => exact .inl (.url h)
  | block h =>
    rcases List.mem_append.mp h with hold | hnew
    · exact .inl (.block hold)
    · exact .inr (List.mem_singleton.mp hnew)

theorem advances_replaceFound (a : Adaptation) (index : Nat) (markup : List Char)
    (contact : Contact) : Advances a (a.replaceFound index markup contact) := by
  rw [replaceFound]
  cases contact.pattern.find? markup with
  | none => exact .refl a
  | some found =>
    rw [Option.elim_some, replaceContact]
    split
    · exact .refl a
    · exact (Advances.document a _).trans (advances_record _ _)

theorem advances_brand (a : Adaptation) : Advances a a.runBrand := by
  rw [runBrand]
  split
  · exact .refl a
  · exact .foldl (fun a contact => a.advances_replaceFound _ _ contact) a Contact.all

theorem advances_comments (preserve : Bool) (a : Adaptation) :
    Advances a (a.runComments preserve) := by
  rw [runComments]
  split
  · exact .refl a
  · exact .document a _

theorem advances_run (o : AdaptOptions) (s : Stage) (a : Adaptation) : Advances a (s.run o a) := by
  cases s with
  | preheader => exact a.advances_preheader o.preheaderFallback
  | title => exact a.advances_title
  | ctas => exact .foldl (fun a c => a.advances_addCta c) a _
  | blocks => exact .foldl (fun a block => a.advances_addBlock block) a _
  | brand => exact a.advances_brand
  | comments => exact a.advances_comments o.preserveComments

/-! ### Runs -/

theorem not_promises_start (html name : String) : ¬ (start html).Promises name := by
  intro hname
  cases hname with
  | preheader h => cases h
  | title h => cases h
  | text h => cases h
  | url h => cases h
  | block h => cases h

theorem backed_runAll (o : AdaptOptions) (html : String) (stages : List Stage) :
    (Stage.runAll o stages (start html)).Backed html := by
  have hadvances : Advances (start html) (Stage.runAll o stages (start html)) :=
    .foldl (fun a s => advances_run o s a) _ stages
  have hrecorded : (Stage.runAll o stages (start html)).Recorded :=
    (recorded_start html).foldl (fun a s ha => ha.run o s) stages
  refine ⟨hadvances.source, hrecorded.nodup, fun name hname => ?_⟩
  rcases hadvances.promises name hname with hold | hlisted
  · exact absurd hold (not_promises_start html name)
  · exact hlisted

end Adaptation

open Adaptation in
/-- After every stage of every run the placeholders of before are still the first ones, and what is promised
is listed. -/
theorem placeholders_prefix_and_backed (o : AdaptOptions) (html : String) (stages : List Stage)
    (s : Stage) :
    (Stage.runAll o stages (start html)).placeholders <+:
        (Stage.runAll o (stages ++ [s]) (start html)).placeholders ∧
      (Stage.runAll o (stages ++ [s]) (start html)).Backed html := by
  have hlast : Stage.runAll o (stages ++ [s]) (start html) =
      s.run o (Stage.runAll o stages (start html)) := by
    rw [Stage.runAll, List.foldl_append, Stage.runAll]
    rfl
  refine ⟨?_, backed_runAll o html (stages ++ [s])⟩
  rw [hlast]
  exact (advances_run o s _).keeps

end EmailTemplate
